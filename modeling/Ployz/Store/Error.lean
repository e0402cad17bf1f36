import Mathlib.Tactic.Common

/-!
# The Store's errors

What a refused command answers: a code and a text. A command that answers one leaves the
Store as it was, as its transaction rolls back.
-/

namespace Ployz

inductive RpcErrorCode
  | invalidArgument
  | notFound
  | ambiguous
  | conflict
  | unavailable
  | unsupported
  | confirmationRequired
  | internal
deriving DecidableEq, Repr

structure RpcError where
  code : RpcErrorCode
  message : String
deriving DecidableEq, Repr

namespace RpcError

def invalid (message : String) : RpcError := ⟨.invalidArgument, message⟩
def missing (message : String) : RpcError := ⟨.notFound, message⟩
def clash (message : String) : RpcError := ⟨.conflict, message⟩
def unobserved (message : String) : RpcError := ⟨.unavailable, message⟩
def unconfirmed (message : String) : RpcError := ⟨.confirmationRequired, message⟩

/-- Stored data the Store cannot read back. -/
def corrupt (what : String) : RpcError :=
  ⟨.internal, s!"The Config Store holds an unreadable {what}"⟩

def taken : RpcError := clash "An ID or name in this request is already taken"

end RpcError

end Ployz
