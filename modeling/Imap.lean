import Imap.Grammar
import Imap.Main
import Imap.SequenceSet.Numbers
import Imap.Proofs.Growth.Basic
import Imap.Proofs.Growth.Token
import Imap.Proofs.Growth.List
import Imap.Proofs.Built.Basic
import Imap.Proofs.Built.Lexical
import Imap.Proofs.Line.Basic
import Imap.Proofs.Line.List
import Imap.Proofs.Modes.Basic
import Imap.Proofs.Modes.List
import Imap.Proofs.Line.Framed
import Imap.Proofs.Built.Status
import Imap.Proofs.Built.Data
import Imap.Proofs.Built.Command
import Imap.Proofs.Built.Grammar
import Imap.Proofs.Stability
import Imap.Proofs.Places
import Imap.Proofs.Outcomes
import Imap.Proofs.Line.Unit
import Imap.Proofs.Unit
import Imap.Proofs.Modes
import Imap.Proofs.Reader.Drain
import Imap.Proofs.Reader.Chunks
import Imap.Proofs.Reader.Attempts
import Imap.Proofs.Reader.History
import Imap.Proofs.Reader.Patience
import Imap.Proofs.Reader.Salvage
import Imap.Proofs.Reader.Resync
import Imap.Proofs.Print
import Imap.Proofs.Dump
import Imap.Proofs.Line.Finished
import Imap.Proofs.Finished
import Imap.Proofs.Values
import Imap.Proofs.Caseless
import Imap.Proofs.Written.Command
import Imap.Proofs.Written.Fetch
import Imap.Proofs.Written.Data
import Imap.Proofs.Order
import Imap.Proofs.SequenceSet.Compact
import Imap.Proofs.Written.Spelled
import Imap.Proofs.SequenceSet.RoundTrip
import Imap.Proofs.Password
import Imap.Proofs.SequenceSet.NormalForm
import Imap.Proofs.Reader.Stuck
import Imap.Proofs.Written.Strings
import Imap.Proofs.Written.Code
import Imap.Proofs.StatusText
import Imap.Proofs.Written.Capability
import Imap.Proofs.Advertised
import Imap.Proofs.Written.Message
import Imap.Proofs.Written.Bracket
import Imap.Proofs.Numbers
import Imap.Proofs.Written.Base64
import Imap.Proofs.Completable
import Imap.Proofs.Dates
import Imap.Proofs.Calendar
import Imap.Proofs.Alternation
import Imap.Proofs.Keyword
