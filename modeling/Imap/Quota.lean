import Imap.Resource

namespace Imap

/-- What a quota root uses of a resource. -/
structure QuotaUsage where
  resource : Resource
  usage : Int
  limit : Int
  deriving DecidableEq, Repr

/-- The limit that a client sets. -/
structure QuotaLimit where
  resource : Resource
  limit : Int
  deriving DecidableEq, Repr

namespace QuotaUsage

instance : ToTerm QuotaUsage where
  term q := .record "QuotaGet" [("resource", term q.resource), ("usage", term q.usage),
    ("limit", term q.limit)]

def rule : Rule QuotaUsage := do
  let resource ← Resource.rule
  Rule.space
  let usage ← Rule.number64
  Rule.space
  return ⟨resource, usage, ← Rule.number64⟩

def listRule : Rule (List QuotaUsage) := Rule.nonEmptyList rule

end QuotaUsage

namespace QuotaLimit

instance : ToTerm QuotaLimit where
  term q := .record "QuotaSet" [("resource", term q.resource), ("limit", term q.limit)]

def rule : Rule QuotaLimit := do
  let resource ← Resource.rule
  Rule.space
  return ⟨resource, ← Rule.number64⟩

/-- An empty list takes every limit off. -/
def listRule : Rule (List QuotaLimit) := Rule.list rule

end QuotaLimit

end Imap
