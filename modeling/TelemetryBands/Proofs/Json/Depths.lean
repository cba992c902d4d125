import TelemetryBands.Json.Tree

/-!
# Depths of documents

A document may be refused because too many containers stand inside each other. One whose depth fits
is sound or not whatever room there is.
-/

namespace TelemetryBands.Json

mutual

/-- The containers that stand inside each other in a document. -/
def depth : Json → Nat
  | .array items => depthOfItems items + 1
  | .object members => depthOfMembers members + 1
  | _ => 0

/-- The greatest depth of an item. -/
def depthOfItems : List Json → Nat
  | [] => 0
  | item :: items => max item.depth (depthOfItems items)

/-- The greatest depth of the value of a member. -/
def depthOfMembers : List (Quoted × Json) → Nat
  | [] => 0
  | (_, value) :: members => max value.depth (depthOfMembers members)

end

mutual

/-- More room than a document needs has no part in whether it is sound. -/
theorem isSound_of_depth {room : Nat} (more : Nat) (j : Json) (h : j.depth ≤ room) :
    j.isSound (room + more) = j.isSound room := by
  match j with
  | .null | .bool b | .number n | .string q =>
    cases room <;> cases more <;> rfl
  | .array items =>
    cases room with
    | zero => cases h
    | succ room =>
      rw [Nat.add_right_comm]
      exact areSound_of_depth more items (Nat.le_of_succ_le_succ h)
  | .object members =>
    cases room with
    | zero => cases h
    | succ room =>
      rw [Nat.add_right_comm]
      exact membersAreSound_of_depth more members (Nat.le_of_succ_le_succ h)

theorem areSound_of_depth {room : Nat} (more : Nat) (items : List Json)
    (h : depthOfItems items ≤ room) : areSound (room + more) items = areSound room items := by
  match items with
  | [] => rfl
  | item :: items =>
    rw [depthOfItems, Nat.max_le] at h
    rw [areSound, areSound, isSound_of_depth more item h.1, areSound_of_depth more items h.2]

theorem membersAreSound_of_depth {room : Nat} (more : Nat) (members : List (Quoted × Json))
    (h : depthOfMembers members ≤ room) :
    membersAreSound (room + more) members = membersAreSound room members := by
  match members with
  | [] => rfl
  | (name, value) :: members =>
    rw [depthOfMembers, Nat.max_le] at h
    rw [membersAreSound, membersAreSound, isSound_of_depth more value h.1,
      membersAreSound_of_depth more members h.2]

end

theorem membersAreSound_append (room : Nat) (before after : List (Quoted × Json)) :
    membersAreSound room (before ++ after) =
      (membersAreSound room before && membersAreSound room after) := by
  induction before with
  | nil => rfl
  | cons member before ih =>
    simp only [List.cons_append, membersAreSound, ih, Bool.and_assoc]

end TelemetryBands.Json
