import TableQuery.Store.Document

/-! What is told of every change of a store. -/
namespace TableQuery

/-- Something that receives the whole store after each command that changes it. -/
class Persistence (σ : Type) where
  start : σ
  commit : Store → σ → σ

/-- Forgets every commit. -/
instance : Persistence Unit := ⟨(), fun _ _ => ()⟩

/-- Keeps the text of the store as it was last committed, and counts the commits. -/
structure Snapshot where
  latest : Option String
  commits : Nat
  deriving DecidableEq

instance : Persistence Snapshot :=
  ⟨⟨none, 0⟩, fun store s => ⟨some store.render, s.commits + 1⟩⟩

end TableQuery
