import Imap.Proofs.Dump
import Imap.Proofs.Written.Command

namespace Imap

open Written

namespace Written

/-- A login but for its password. -/
structure Login where
  tag : Run Octet.isTagChar
  name : Spelling "LOGIN"
  username : Astring .command
  lineEnd : LineEnd

/-- The login as it is sent with a password. -/
def Login.line (l : Login) (password : Astring .command) : ClientLine :=
  ⟨l.tag, .login l.name l.username password, l.lineEnd⟩

end Written

namespace Command

/-- A password ends where it should, whatever it holds: the line is read up to its end. -/
theorem login_reads (l : Login) (password : Astring .command) (more : Bytes) :
    Command.rule.Reads ⟨false, .command⟩ ((l.line password).octets ++ more)
      (l.line password).value more := by
  let ctx : Context := ⟨false, .command⟩
  have hrequest := @CommandBody.rule_reads ctx _ (l.line password).request rfl
    (l.lineEnd.stops ctx more)
  simp only [ClientLine.octets, List.append_assoc, List.cons_append]
  apply (l.tag.reads .tagChar (by rfl)).bind
  apply Rule.space_reads.bind
  apply hrequest.bind
  exact (Rule.lineEnd_reads l.lineEnd).bind (.pure _)

theorem print_login (l : Login) (password password' : Astring .command) :
    (term (l.line password).value).print = (term (l.line password').value).print := by
  simp only [Login.line, ClientLine.value, Request.value, ToTerm.term, Term.print, Term.printFields]

/-- The octets are one command as a whole. -/
def Fills (line : Bytes) : Prop := ∃ c, Command.rule ⟨false, .command⟩ line = .done c line.length

end Command

namespace Source

theorem decode_client {bs : Bytes} {c : Command} {used : Nat} (units : Nat)
    (h : Command.rule ⟨false, .command⟩ bs = .done c used) :
    client.decode units bs = .done (.command c) used := by
  have hmap : (WireUnit.command <$> Command.rule) ⟨false, .command⟩ bs =
      .done (.command c) (used + 0) := Rule.bind_done_of h rfl
  exact hmap

/-- Whole commands are read whatever follows. -/
theorem decodeAll_fills {before : List Bytes} (h : ∀ line ∈ before, Command.Fills line)
    (units : Nat) : ∃ us, ∀ more, client.decodeAll units (before.flatten ++ more) =
      (client.decodeAll (units + us.length) more).behind us := by
  induction before generalizing units with
  | nil => exact ⟨[], fun more => rfl⟩
  | cons line before ih =>
    obtain ⟨⟨c, hline⟩, hbefore⟩ := List.forall_mem_cons.mp h
    obtain ⟨us, hus⟩ := ih hbefore (units + 1)
    refine ⟨.command c :: us, fun more => ?_⟩
    -- A command that was read to its end is read the same in front of the others.
    have hfirst := decode_append (decode_client units hline) (before.flatten ++ more)
    rw [List.flatten_cons, List.append_assoc, decodeAll_done hfirst, List.drop_left, hus,
      Decoded.behind_behind, List.length_cons, Nat.add_assoc, Nat.add_comm 1 us.length]
    rfl

/-- The password is in one of the units, and nowhere else in what is decoded. -/
theorem decodeAll_login {before : List Bytes} (hbefore : ∀ line ∈ before, Command.Fills line)
    (l : Login) (after : Bytes) : ∃ us d, ∀ password,
      client.decodeAll 0 (before.flatten ++ ((l.line password).octets ++ after)) =
        Decoded.behind (us ++ [.command (l.line password).value]) d := by
  obtain ⟨us, hus⟩ := decodeAll_fills hbefore 0
  refine ⟨us, client.decodeAll (0 + us.length + 1) after, fun password => ?_⟩
  have hlogin := decode_client (0 + us.length) (Command.login_reads l password after).done
  rw [hus, decodeAll_done hlogin, List.drop_left, Decoded.behind_behind]

end Source

namespace Dump

/-- The status depends on what is left and on the failure there. -/
theorem status_congr (name : String) {r r' : Reading} {whole whole' : Source.Decoded}
    (h : Reading.Ends r.failure whole) (h' : Reading.Ends r'.failure whole')
    (hrest : whole.rest = whole'.rest) (hstop : whole.stop = whole'.stop) :
    (ofReading name r).status = (ofReading name r').status := by
  obtain ⟨hvalues, hzero, hone, -⟩ := @status_of_ends name r whole h
  obtain ⟨hvalues', hzero', hone', -⟩ := @status_of_ends name r' whole' h'
  rw [hrest, ← hzero'] at hzero
  rw [hstop, ← hone'] at hone
  omega

/-- Captures whose units print alike and that end alike have the same dump, but for its log. -/
theorem ofCapture_congr (name : String) {source : Source} (named : source ≠ .unnamed)
    {capture capture' : Bytes} {size size' : Nat} (hsize : 0 < size) (hsize' : 0 < size')
    (hprint : (source.decodeAll 0 capture).units.map (fun unit => (term unit).print) =
      (source.decodeAll 0 capture').units.map (fun unit => (term unit).print))
    (hrest : (source.decodeAll 0 capture).rest = (source.decodeAll 0 capture').rest)
    (hstop : (source.decodeAll 0 capture).stop = (source.decodeAll 0 capture').stop) :
    (ofCapture name source size capture).lines = (ofCapture name source size' capture').lines ∧
      (ofCapture name source size capture).status = (ofCapture name source size' capture').status := by
  have read {size : Nat} (hsize : 0 < size) (capture : Bytes) :
      (Reading.ofChunks (.new source) (Reading.chunks size capture)).units =
          (source.decodeAll 0 capture).units ∧
        Reading.Ends (Reading.ofChunks (.new source) (Reading.chunks size capture)).failure
          (source.decodeAll 0 capture) := by
    have h := Reading.ofChunks_ends (r := .new source) named (.empty rfl rfl)
      (Reading.chunks size capture)
    rwa [Reading.chunks_flatten hsize] at h
  obtain ⟨hunits, hends⟩ := read hsize capture
  obtain ⟨hunits', hends'⟩ := read hsize' capture'
  have hstatus := status_congr name hends hends' hrest hstop
  rw [← hunits, ← hunits'] at hprint
  exact ⟨hprint, hstatus⟩

/-- Behind whole commands and in front of any octets, one password for another in a login changes no
line and not the status. Neither does another size of the chunks. -/
theorem ofCapture_hides_password (name : String) {before : List Bytes}
    (hbefore : ∀ line ∈ before, Command.Fills line) (login : Login)
    (password password' : Astring .command) (after : Bytes) {size size' : Nat} (hsize : 0 < size)
    (hsize' : 0 < size') :
    let dump := ofCapture name .client size
      (before.flatten ++ ((login.line password).octets ++ after))
    let dump' := ofCapture name .client size'
      (before.flatten ++ ((login.line password').octets ++ after))
    dump.lines = dump'.lines ∧ dump.status = dump'.status := by
  intro dump dump'
  obtain ⟨us, d, hdecoded⟩ := Source.decodeAll_login hbefore login after
  have hprint : (term (WireUnit.command (login.line password).value)).print =
      (term (WireUnit.command (login.line password').value)).print :=
    Command.print_login login password password'
  refine ofCapture_congr name (by decide) hsize hsize' ?_ ?_ ?_
  · rw [hdecoded, hdecoded]
    simp only [Source.Decoded.behind, List.map_append, List.map_cons, hprint]
  · rw [hdecoded, hdecoded]
    rfl
  · rw [hdecoded, hdecoded]
    rfl

/-- A password that holds the end of its own line and a further command. -/
theorem ofCapture_hides_command :
    let noop := Bytes.ofText "a NOOP\r\n"
    let capture := Bytes.ofText "a NOOP\r\nb LOGIN fred x\r\n("
    let capture' := Bytes.ofText "a NOOP\r\nb LOGIN fred \x7b9+\x7d\r\nx\r\ny NOOP\r\n("
    (∀ line ∈ [noop], Command.Fills line) ∧ 0 < 3 ∧ 0 < 4096 ∧
      (ofCapture "session" .client 3 capture).lines =
        (ofCapture "session" .client 4096 capture').lines ∧
      (ofCapture "session" .client 3 capture).status =
        (ofCapture "session" .client 4096 capture').status := by
  intro noop capture capture'
  have hnoop : ∀ line ∈ [noop], Command.Fills line :=
    List.forall_mem_singleton.mpr ⟨⟨"a", .simple "NOOP"⟩, by decide +kernel⟩
  let login : Login := {
    tag := ⟨Bytes.ofText "b", by decide, by decide +kernel⟩
    name := ⟨Bytes.ofText "LOGIN", .refl _⟩
    username := .bare ⟨Bytes.ofText "fred", by decide, by decide +kernel⟩
    lineEnd := .returnFeed }
  let short : Astring .command := .bare ⟨Bytes.ofText "x", by decide, by decide +kernel⟩
  let long : Astring .command := .string <| .literal {
    content := Bytes.ofText "x\r\ny NOOP"
    zeros := 0
    plus := true
    lineEnd := .returnFeed
    bounded := by decide
    noNul := by decide
    plusAllowed := fun _ => rfl }
  have hcapture : [noop].flatten ++ ((login.line short).octets ++ Bytes.ofText "(") = capture := rfl
  have hcapture' : [noop].flatten ++ ((login.line long).octets ++ Bytes.ofText "(") = capture' := rfl
  have hsame := ofCapture_hides_password "session" hnoop login short long (Bytes.ofText "(")
    (by decide : 0 < 3) (by decide : 0 < 4096)
  rw [hcapture, hcapture'] at hsame
  exact ⟨hnoop, by decide, by decide, hsame⟩

end Dump

end Imap
