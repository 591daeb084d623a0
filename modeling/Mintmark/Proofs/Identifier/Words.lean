import Mintmark.Proofs.Identifier.Refusal

/-!
Reading in machine words. Lists are cut only inside their bounds, differences must not be negative,
and every number must fit the word it is formed in. Reading never breaks these rules: under them it
has a result for every text, the same as without them.
-/
namespace Mintmark

namespace Words

def word? (bits number : Nat) : Option Nat := if number < 2 ^ bits then some number else none

def difference? (whole part : Nat) : Option Nat := if part ≤ whole then some (whole - part) else none

def place? {α : Type} (items : List α) (place : Nat) : Option Nat :=
  if place ≤ items.length then some place else none

def slice? {α : Type} (items : List α) (start stop : Nat) : Option (List α) :=
  if start ≤ stop ∧ stop ≤ items.length then some ((items.drop start).take (stop - start)) else none

def extend? (number : Nat) (byte : UInt8) : Option Nat := do
  let digit ← difference? byte.toNat 48
  let shifted ← word? 32 (number * 10)
  word? 32 (shifted + digit)

def column? (bytes : List UInt8) (start stop : Nat) : Option Nat := do
  (← slice? bytes start stop).foldlM extend? 0

/-- The fields of twenty-two bytes. The whole year is a signed word, and the node and the sequence are
cut down to sixteen bits. -/
def suffix? (bytes : List UInt8) : Option Suffix := do
  let year ← column? bytes 0 2
  let _ ← word? 31 (2000 + year)
  let month ← column? bytes 2 4
  let day ← column? bytes 4 6
  let hour ← column? bytes 6 8
  let minute ← column? bytes 8 10
  let second ← column? bytes 10 12
  let millis ← column? bytes 12 15
  let node ← column? bytes 15 19
  let sequence ← column? bytes 19 22
  pure { year, month, day, hour, minute, second, millis
         node := node % 2 ^ 16, sequence := sequence % 2 ^ 16 }

def millisOfDay? (suffix : Suffix) : Option Nat := do
  let hours ← word? 32 (suffix.hour * 60)
  let minutes ← word? 32 (hours + suffix.minute)
  let shifted ← word? 32 (minutes * 60)
  let seconds ← word? 32 (shifted + suffix.second)
  let shifted ← word? 32 (seconds * 1000)
  word? 32 (shifted + suffix.millis)

/-- The instant at a time of day, which begins again at midnight. -/
def instantAt (date : Date) (millis : Nat) : Instant :=
  { seconds := date.dayNumber * 86400 + (millis / 1000 % 86400 : Nat)
    nanos := millis % 1000 * 1000000 }

def ofText? (text : String) : Option (Except TextError Identifier) :=
  let bytes := Text.bytes text
  if bytes.length = 0 then some (.error .empty)
  else if bytes.length ≤ 22 then some (.error (.tooShort bytes.length))
  else do
    let labelBytes ← difference? bytes.length 22
    let digits ← slice? bytes labelBytes bytes.length
    match digits.findIdx? (fun byte => !byte.isASCIIDigit) with
    | some found =>
      let place ← place? bytes (labelBytes + found)
      pure (.error (.nonDigit place))
    | none =>
      let suffix ← suffix? digits
      match suffix.flaw with
      | some error => pure (.error error)
      | none =>
        let millis ← millisOfDay? suffix
        pure (.ok
          { text, labelBytes
            instant := instantAt suffix.date millis
            node := .ofSeed suffix.node
            sequence := suffix.sequence.toUInt16 })

section Steps
variable {α : Type} {items : List α} {bits number whole part place start stop : Nat}

theorem word?_eq (fits : number < 2 ^ bits) : word? bits number = some number := if_pos fits

theorem difference?_eq (le : part ≤ whole) : difference? whole part = some (whole - part) := if_pos le

theorem place?_eq (inside : place ≤ items.length) : place? items place = some place := if_pos inside

theorem slice?_eq (ordered : start ≤ stop) (inside : stop ≤ items.length) :
    slice? items start stop = some ((items.drop start).take (stop - start)) :=
  if_pos ⟨ordered, inside⟩

end Steps

theorem extend?_digitByte {number digit : Nat} (small : digit < 10)
    (fits : number * 10 + digit < 2 ^ 32) :
    extend? number (Numeral.digitByte digit) = some (number * 10 + digit) := by
  have byte := Numeral.toNat_digitByte small
  have difference : difference? (Numeral.digitByte digit).toNat 48 = some digit := by
    rw [byte, difference?_eq (by omega), Nat.add_sub_cancel_left]
  have shifted : word? 32 (number * 10) = some (number * 10) := word?_eq (by omega)
  simp only [extend?, difference, shifted, word?_eq fits, Option.bind_eq_bind, Option.bind_some]

theorem foldlM_extend? {digits : List Nat} (small : ∀ digit ∈ digits, digit < 10) :
    ∀ {number width : Nat}, number < 10 ^ width → width + digits.length ≤ 9 →
      (digits.map Numeral.digitByte).foldlM extend? number =
        some (digits.foldl (fun number digit => number * 10 + digit) number) := by
  induction digits with
  | nil =>
    intro number width _ _
    rfl
  | cons digit digits rest =>
    intro number width bound short
    obtain ⟨first, others⟩ := List.forall_mem_cons.1 small
    rw [List.length_cons] at short
    have grown : number * 10 + digit < 10 ^ (width + 1) := by
      rw [Nat.pow_succ]
      omega
    have largest : 10 ^ (width + 1) ≤ 10 ^ 9 := Nat.pow_le_pow_right (by decide) (by omega)
    rw [List.map_cons, List.foldlM_cons, extend?_digitByte first (by omega), Option.bind_eq_bind,
      Option.bind_some, List.foldl_cons]
    exact rest others grown (by omega)

theorem column?_digitBytes {digits : List Nat} {start stop : Nat}
    (small : ∀ digit ∈ digits, digit < 10) (ordered : start ≤ stop) (inside : stop ≤ digits.length)
    (narrow : stop - start ≤ 9) : column? (digits.map Numeral.digitByte) start stop =
      some (Numeral.ofDigits ((digits.drop start).take (stop - start))) := by
  have bytes : stop ≤ (digits.map Numeral.digitByte).length := by
    rwa [List.length_map]
  have sliced : ∀ digit ∈ (digits.drop start).take (stop - start), digit < 10 :=
    fun digit member => small digit (List.mem_of_mem_drop (List.mem_of_mem_take member))
  have short : 0 + ((digits.drop start).take (stop - start)).length ≤ 9 := by
    rw [List.length_take]
    omega
  rw [column?, slice?_eq ordered bytes, Option.bind_eq_bind, Option.bind_some, ← List.map_drop,
    ← List.map_take]
  exact foldlM_extend? sliced (Nat.one_pos : 0 < 10 ^ 0) short

theorem suffix?_digitBytes {digits : List Nat} (length : digits.length = Suffix.width)
    (small : ∀ digit ∈ digits, digit < 10) :
    suffix? (digits.map Numeral.digitByte) = some (Suffix.ofDigits digits) := by
  have column {start stop : Nat} (ordered : start ≤ stop) (inside : stop ≤ 22)
      (narrow : stop - start ≤ 9) := column?_digitBytes small ordered (length ▸ inside) narrow
  have fits := Suffix.fits_ofDigits length small
  have fields : Suffix.ofDigits digits =
      { year := Numeral.ofDigits ((digits.drop 0).take (2 - 0))
        month := Numeral.ofDigits ((digits.drop 2).take (4 - 2))
        day := Numeral.ofDigits ((digits.drop 4).take (6 - 4))
        hour := Numeral.ofDigits ((digits.drop 6).take (8 - 6))
        minute := Numeral.ofDigits ((digits.drop 8).take (10 - 8))
        second := Numeral.ofDigits ((digits.drop 10).take (12 - 10))
        millis := Numeral.ofDigits ((digits.drop 12).take (15 - 12))
        node := Numeral.ofDigits ((digits.drop 15).take (19 - 15))
        sequence := Numeral.ofDigits ((digits.drop 19).take (22 - 19)) } := by
    simp [Suffix.ofDigits, Numeral.columns, Suffix.widths]
  rw [fields] at fits ⊢
  simp only [Suffix.Fits, Suffix.numbers, Suffix.widths, Numeral.Fits] at fits
  obtain ⟨year, -, -, -, -, -, -, node, sequence, -⟩ := fits
  have signed := word?_eq (by omega : 2000 + Numeral.ofDigits ((digits.drop 0).take (2 - 0)) < 2 ^ 31)
  have nodeKept := Nat.mod_eq_of_lt (Nat.lt_trans node (by decide : 10 ^ 4 < 2 ^ 16))
  have sequenceKept := Nat.mod_eq_of_lt (Nat.lt_trans sequence (by decide : 10 ^ 3 < 2 ^ 16))
  simp (disch := decide) only [suffix?, column, signed, nodeKept, sequenceKept, Option.bind_eq_bind,
    Option.bind_some]
  rfl

theorem millisOfDay?_eq {suffix : Suffix} (real : suffix.Real) : millisOfDay? suffix =
    some (((suffix.hour * 60 + suffix.minute) * 60 + suffix.second) * 1000 + suffix.millis) := by
  obtain ⟨_, _, hour, minute, second, millis, _, _⟩ := real
  simp (disch := omega) only [millisOfDay?, word?_eq, Option.bind_eq_bind, Option.bind_some]

theorem instantAt_eq {suffix : Suffix} (real : suffix.Real) : instantAt suffix.date
    (((suffix.hour * 60 + suffix.minute) * 60 + suffix.second) * 1000 + suffix.millis) =
      suffix.instant := by
  obtain ⟨_, _, hour, minute, second, millis, _, _⟩ := real
  rw [instantAt, Suffix.instant, Instant.mk.injEq]
  omega

end Words

namespace Identifier
open Words

theorem ofText?_eq (text : String) : ofText? text = some (ofText text) := by
  have size := Text.utf8ByteSize_eq_length_bytes text
  rw [ofText_eq, ofText?, ← size]
  split
  · rfl
  split
  · rfl
  rename_i _ short
  have long := Nat.lt_of_not_le short
  have tail : ((Text.bytes text).drop (text.utf8ByteSize - 22)).take
      (text.utf8ByteSize - (text.utf8ByteSize - 22)) = lastBytes text := by
    apply List.take_of_length_le
    rw [List.length_drop, ← size]
  have sliced := slice?_eq (Nat.sub_le text.utf8ByteSize 22) (Nat.le_of_eq size)
  rw [tail] at sliced
  simp only [difference?_eq (Nat.le_of_lt long), sliced, Option.bind_eq_bind, Option.bind_some]
  cases read : Numeral.ofBytes (lastBytes text) with
  | error place =>
    have found := Numeral.ofBytes_eq_error_iff.1 read
    have bound := (List.findIdx?_eq_some_iff_getElem.1 found).1
    rw [length_lastBytes long] at bound
    have inside : text.utf8ByteSize - 22 + place ≤ (Text.bytes text).length := by omega
    simp only [found, place?_eq inside, Option.bind_some]
    rfl
  | ok digits =>
    have ascii := Numeral.ofBytes_ok_iff.1 ⟨digits, read⟩
    have clean : (lastBytes text).findIdx? (fun byte => !byte.isASCIIDigit) = none :=
      List.findIdx?_eq_none_iff.2 (by simpa using ascii)
    obtain ⟨small, bytes⟩ := Numeral.bytes_of_ofBytes read
    have length : digits.length = Suffix.width := by
      rw [← List.length_map, ← bytes, length_lastBytes long]
      rfl
    have fields := suffix?_digitBytes length small
    rw [← bytes] at fields
    simp only [clean, fields, Option.bind_some]
    cases flaw : (Suffix.ofDigits digits).flaw with
    | some error => rfl
    | none =>
      have real := Suffix.real_of_flaw (Suffix.fits_ofDigits length small) flaw
      simp only [millisOfDay?_eq real, instantAt_eq real, Option.bind_some]
      rfl

/-- Reading reports the first thing that is wrong with a text, with the numbers found there, and no
step of it leaves the bounds of a list or of a machine word. -/
theorem ofText_reports (text : String) :
    (∀ error, ofText text = .error error ↔ Refusal text error) ∧
      Words.ofText? text = some (ofText text) :=
  ⟨fun _ => ofText_eq_error_iff, ofText?_eq text⟩

end Identifier
end Mintmark
