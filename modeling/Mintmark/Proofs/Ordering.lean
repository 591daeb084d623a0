/-!
Comparisons by the first difference. A comparison that is settled by a key, unless the keys are the
same, is the comparison of the keys followed by that of the rest; for lists this is the order of
their first different items.
-/
namespace Mintmark

section Keys
variable {α β : Type} [Ord α] [LT α] [LE α] [Std.LawfulOrderOrd α] [Std.LawfulOrderLT α]
  [Std.LawfulEqOrd α] [Ord β] [LT β] [LE β] [Std.LawfulOrderOrd β] [Std.LawfulOrderLT β]

theorem compare_eq_then {left right : α} {leftWhole rightWhole : β} {rest : Ordering}
    (lt : left < right → leftWhole < rightWhole) (gt : right < left → rightWhole < leftWhole)
    (eq : left = right → compare leftWhole rightWhole = rest) :
    compare leftWhole rightWhole = (compare left right).then rest := by
  cases key : compare left right with
  | lt => exact Std.compare_eq_lt.2 (lt (Std.compare_eq_lt.1 key))
  | eq => exact eq (Std.LawfulEqOrd.eq_of_compare key)
  | gt => exact Std.compare_eq_gt.2 (gt (Std.compare_eq_gt.1 key))

theorem compare_eq_compare [Std.ReflOrd β] {left right : α} {leftWhole rightWhole : β}
    (lt : left < right → leftWhole < rightWhole) (gt : right < left → rightWhole < leftWhole)
    (eq : left = right → leftWhole = rightWhole) :
    compare leftWhole rightWhole = compare left right := by
  rw [compare_eq_then lt gt fun same => by rw [eq same, Std.ReflOrd.compare_self], Ordering.then_eq]

end Keys

theorem compare_div_mod (base left right : Nat) :
    (compare (left / base) (right / base)).then (compare (left % base) (right % base)) =
      compare left right := by
  have leftParts := Nat.div_add_mod left base
  have rightParts := Nat.div_add_mod right base
  symm
  apply compare_eq_then
  · exact Nat.lt_of_div_lt_div
  · exact Nat.lt_of_div_lt_div
  · intro same
    rw [same] at leftParts
    apply compare_eq_compare <;> omega

theorem compare_append_left {α : Type} [Ord α] [Std.ReflOrd α] (front left right : List α) :
    compare (front ++ left) (front ++ right) = compare left right := by
  induction front with
  | nil => rfl
  | cons first front ih =>
    rw [List.cons_append, List.cons_append, List.compare_cons_cons, Std.ReflOrd.compare_self, ih]
    rfl

theorem compare_map {α β : Type} [Ord α] [Ord β] {image : α → β} {left right : List α}
    (kept : ∀ first ∈ left, ∀ second ∈ right,
      compare (image first) (image second) = compare first second) :
    compare (left.map image) (right.map image) = compare left right := by
  induction left generalizing right with
  | nil =>
    cases right with
    | nil => rfl
    | cons => rfl
  | cons first left ih =>
    cases right with
    | nil => rfl
    | cons second right =>
      have later := ih fun one member other present =>
        kept one (List.mem_cons_of_mem _ member) other (List.mem_cons_of_mem _ present)
      rw [List.map_cons, List.map_cons, List.compare_cons_cons, List.compare_cons_cons, later,
        kept first List.mem_cons_self second List.mem_cons_self]

end Mintmark
