import Mintmark.Proofs.Identifier.Writing

/-!
Numbers of milliseconds as instants, for every number that a word holds. A number has to pass into a
signed word and then into the years of a date; where it fails either, the latest instant stands in
for it. Only those of the years 2000 to 2099 can be written.
-/
namespace Mintmark
namespace Instant

/-- The same number in a signed word, which holds the lower half of the numbers. -/
def signed? (millis : UInt64) : Option Int64 :=
  if millis.toNat < 2 ^ 63 then some millis.toInt64 else none

def ofSigned? (millis : Int64) : Option Instant :=
  let instant : Instant := ⟨millis.toInt / 1000, (millis.toInt % 1000).toNat * 1000000⟩
  if -262143 ≤ instant.date.year ∧ instant.date.year ≤ 262142 then some instant else none

theorem toInt_toInt64 {millis : UInt64} (fits : millis.toNat < 2 ^ 63) :
    millis.toInt64.toInt = millis.toNat := by
  have lower : 2 * millis.toBitVec.toNat < 2 ^ 64 := by
    rw [UInt64.toNat_toBitVec]
    omega
  exact BitVec.toInt_eq_toNat_of_lt lower

theorem earliestYear_le_iff (instant : Instant) :
    -262143 ≤ instant.date.year ↔ earliest.seconds ≤ instant.seconds := by
  have first : (daysBeforeYear (-262143) - daysBeforeYear 1970) * 86400 = earliest.seconds := by decide
  rw [le_year_iff, first]

theorem le_latestYear_iff (instant : Instant) :
    instant.date.year ≤ 262142 ↔ instant.seconds ≤ latest.seconds := by
  have next : (daysBeforeYear (262142 + 1) - daysBeforeYear 1970) * 86400 = latest.seconds + 1 := by
    decide
  rw [← Int.not_lt, ← Int.add_one_le_iff, le_year_iff, next]
  omega

theorem isLE_latest_iff {instant : Instant} (leapless : instant.nanos < 1000000000) :
    (compare instant latest).isLE ↔ instant.date.year ≤ 262142 := by
  have limit : latest.nanoseconds = latest.seconds * 1000000000 + 999999999 := rfl
  rw [compare_eq_compare_nanoseconds leapless (by decide), Std.isLE_compare, le_latestYear_iff, limit,
    nanoseconds]
  omega

theorem ofMillis_eq_getD (millis : UInt64) :
    ofMillis millis = ((signed? millis).bind ofSigned?).getD latest := by
  have first : earliest.seconds = -8334601228800 := rfl
  have last : latest.seconds = 8210266876799 := rfl
  rw [ofMillis, millis_latest, signed?]
  by_cases fits : millis.toNat < 2 ^ 63
  · rw [if_pos fits, Option.bind_some, ofSigned?, toInt_toInt64 fits]
    simp only [earliestYear_le_iff, le_latestYear_iff, first, last]
    by_cases inside : (millis.toNat : Int) ≤ 8210266876799999
    · rw [if_pos inside, if_pos (by omega)]
      rfl
    · rw [if_neg inside, if_neg (by omega)]
      rfl
  · rw [if_neg fits, if_neg (by omega)]
    rfl

theorem nanoseconds_ofMillis_of_le {millis : UInt64} (inside : millis.toNat ≤ 8210266876799999) :
    (ofMillis millis).nanoseconds = millis.toNat * 1000000 := by
  rw [nanoseconds_ofMillis, nanoseconds_latest]
  omega

theorem ofMillis_of_lt {millis : UInt64} (beyond : 8210266876799999 < millis.toNat) :
    ofMillis millis = latest := by
  rw [ofMillis, millis_latest, if_neg (by omega)]

/-- What comes of a number of milliseconds: its own millisecond, to the nanosecond, or the latest
instant, in the order of the numbers as far as they differ, and never in a leap second. -/
structure Clamped (number : UInt64) : Prop where
  staged : ofMillis number = ((signed? number).bind ofSigned?).getD latest
  millis : (ofMillis number).millis = min (number.toNat : Int) 8210266876799999
  exact : number.toNat ≤ 8210266876799999 →
    (ofMillis number).nanoseconds = number.toNat * 1000000 ∧ (ofMillis number).nanos % 1000000 = 0
  beyond : 8210266876799999 < number.toNat → ofMillis number = latest
  leapless : (ofMillis number).nanos < 1000000000
  ordered : ∀ later, number ≤ later → (compare (ofMillis number) (ofMillis later)).isLE
  strict : ∀ later, number < later → number.toNat ≤ 8210266876799999 →
    compare (ofMillis number) (ofMillis later) = .lt
  writes : ∀ (label : String) (node : Node) (sequence : UInt16), label ≠ "" → sequence.toNat ≤ 999 →
    ((∃ identifier, Identifier.ofParts label (ofMillis number) node sequence = .ok identifier) ↔
      946684800000 ≤ number.toNat ∧ number.toNat ≤ 4102444799999)

theorem exists_ofParts_iff {label : String} {node : Node} {sequence : UInt16} (number : UInt64)
    (nonempty : label ≠ "") (fits : sequence.toNat ≤ 999) :
    (∃ identifier, Identifier.ofParts label (ofMillis number) node sequence = .ok identifier) ↔
      946684800000 ≤ number.toNat ∧ number.toNat ≤ 4102444799999 := by
  rw [Identifier.exists_ofParts_iff_printable, Identifier.printable_iff, millis_ofMillis_eq_min]
  constructor
  · rintro ⟨-, -, -, begun, ended⟩
    omega
  · rintro ⟨begun, ended⟩
    exact ⟨nonempty, fits, nanos_ofMillis_lt number, by omega, by omega⟩

theorem ofMillis_clamped :
    (∀ instant : Instant, instant.nanos < 1000000000 →
      ((compare instant latest).isLE ↔ instant.date.year ≤ 262142)) ∧
    ∀ number : UInt64, Clamped number := by
  refine ⟨fun _ => isLE_latest_iff, fun number => ?_⟩
  constructor
  case staged => exact ofMillis_eq_getD number
  case millis => exact millis_ofMillis_eq_min number
  case exact =>
    intro inside
    have total := nanoseconds_ofMillis_of_le inside
    refine ⟨total, ?_⟩
    rw [nanoseconds] at total
    omega
  case beyond => exact ofMillis_of_lt
  case leapless => exact nanos_ofMillis_lt number
  case ordered =>
    intro later order
    rw [UInt64.le_iff_toNat_le] at order
    rw [compare_ofMillis_eq_min, Std.isLE_compare]
    omega
  case strict =>
    intro later order inside
    rw [UInt64.lt_iff_toNat_lt] at order
    rw [compare_ofMillis_eq_min, Std.compare_eq_lt]
    omega
  case writes => exact fun _ _ _ => exists_ofParts_iff number

theorem ofMillis_clamped_edges :
    ((compare (⟨8210266876799, 0⟩ : Instant) latest).isLE ↔
        (⟨8210266876799, 0⟩ : Instant).date.year ≤ 262142) ∧
      (ofMillis 8210266876799999).nanoseconds = 8210266876799999000000 ∧
      ofMillis 18446744073709551615 = latest ∧
      compare (ofMillis 8210266876799999) (ofMillis 8210266876800000) = .lt ∧
      (compare (ofMillis 8210266876800000) (ofMillis 18446744073709551615)).isLE ∧
      (¬ ∃ identifier, Identifier.ofParts "A" (ofMillis 946684799999) (.ofSeed 7) 999 = .ok identifier) ∧
      (∃ identifier, Identifier.ofParts "A" (ofMillis 946684800000) (.ofSeed 7) 999 = .ok identifier) ∧
      (∃ identifier, Identifier.ofParts "A" (ofMillis 4102444799999) (.ofSeed 7) 999 = .ok identifier) ∧
      ¬ ∃ identifier, Identifier.ofParts "A" (ofMillis 4102444800000) (.ofSeed 7) 999 = .ok identifier := by
  obtain ⟨last, clamped⟩ := ofMillis_clamped
  have writes (number : UInt64) := (clamped number).writes "A" (.ofSeed 7) 999 (by decide) (by decide)
  refine ⟨last _ (by decide), ((clamped _).exact (by decide)).1, (clamped _).beyond (by decide),
    (clamped _).strict _ (by decide) (by decide), (clamped _).ordered _ (by decide), ?_, ?_, ?_, ?_⟩
  · rw [writes]
    decide
  · rw [writes]
    decide
  · rw [writes]
    decide
  · rw [writes]
    decide

end Instant
end Mintmark
