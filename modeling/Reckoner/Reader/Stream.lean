import Reckoner.Reader.Header

/-!
# Token streams

A reader pulled until the end of its input gives the stream of its tokens. If a fault ends
it, the tokens before the fault remain. In a listing each `function` token is followed by
the literal that it announces.
-/

namespace Reckoner

/-- What has been pulled, the fault that ended it if one did, and the reader afterwards. -/
structure Pulled (α : Type) where
  items : List α
  fault : Option Fault
  reader : Reader

/-- Puts an item before those pulled later. -/
def Pulled.cons {α : Type} (item : α) (later : Pulled α) : Pulled α :=
  { later with items := item :: later.items }

namespace Reader

/-- Pulls tokens up to the end of the input. -/
def pull : Nat → Reader → Pulled Token
  | 0, r => ⟨[], some .exhausted, r⟩
  | fuel + 1, r =>
    match Reading.next r with
    | .error fault r => ⟨[], some fault, r⟩
    | .ok t r => if t.kind = .endOfInput then ⟨[t], none, r⟩ else (pull fuel r).cons t

/-- All tokens, the end of the input included. -/
def stream (r : Reader) : Pulled Token := pull r.budget r

/-- A line of a listing. -/
inductive Entry where
  | token (t : Token)
  | literal (f : FunctionLiteral)
  deriving DecidableEq

/-- Pulls tokens and the literals announced by them up to the end of the input. -/
def pullEntries : Nat → Reader → Pulled Entry
  | 0, r => ⟨[], some .exhausted, r⟩
  | fuel + 1, r =>
    match Reading.next r with
    | .error fault r => ⟨[], some fault, r⟩
    | .ok t r =>
      if t.kind = .endOfInput then ⟨[.token t], none, r⟩
      else if t.kind = .functionDeclaration then
        match Reading.functionLiteral r with
        | .error fault r => ⟨[.token t], some fault, r⟩
        | .ok f r => ((pullEntries fuel r).cons (.literal f)).cons (.token t)
      else (pullEntries fuel r).cons (.token t)

/-- The listing of a source. -/
def listing (r : Reader) : Pulled Entry := pullEntries r.budget r

end Reader

/-- All remaining tokens, the end of the input included; a fault loses those before it. -/
def Reading.tokens : Reading (List Token) := fun r =>
  match r.stream with
  | ⟨tokens, none, r⟩ => .ok tokens r
  | ⟨_, some fault, r⟩ => .error fault r

end Reckoner
