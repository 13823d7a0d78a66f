/-!
# Grouping by number

Items sorted into numbered groups; within a group they keep their order. An item whose number is
past the last group belongs to none.
-/

namespace LedEffect

/-- The items of a list by their numbers: group `n` holds those numbered `n`, in list order. -/
def groupInto {α : Type} (groups : Nat) (items : List (Nat × α)) : Array (Array α) :=
  items.foldl (fun rows item => rows.modify item.1 (·.push item.2)) (Array.replicate groups #[])

end LedEffect
