import Imap.Bytes
import Imap.Refusal

namespace Imap.Text.Ascii

/-- Refused at the first octet that is not ASCII. -/
def decode (bs : Bytes) : Except Refusal String :=
  match bs.findIdx? fun b => 0x80 ≤ b with
  | none => .ok (Bytes.text bs)
  | some place => .error (.beyondAscii (bs.getD place 0).toNat place)

theorem decode_ok {bs : Bytes} (h : ∀ b ∈ bs, b < 0x80) : decode bs = .ok (Bytes.text bs) := by
  have hnone : bs.findIdx? (fun b => 0x80 ≤ b) = none := by
    rw [List.findIdx?_eq_none_iff]
    intro b hb
    exact decide_eq_false (UInt8.not_le.mpr (h b hb))
  rw [decode, hnone]

theorem decode_eq {bs : Bytes} {s : String} (h : decode bs = .ok s) : s = Bytes.text bs := by
  unfold decode at h
  split at h <;> cases h
  rfl

end Imap.Text.Ascii
