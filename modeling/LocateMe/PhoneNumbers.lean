import LocateMe.Lib.Replacement

/-!
# The number that is dialled

`makeCall` takes the formatting out of a phone number with the expression
`[+1 () -]`, a character class, and opens the rest as a `tel://` URL.

Results:
1. `matches_formatting`: the characters that the expression matches anywhere.
2. `callString_eq_iff`: which phone numbers open the same URL.
3. `digits_callString_iff`: the digits that are dialled are those of the number
   iff it has no `1` after its country code.
-/

namespace LocateMe

/-! ## 1. `makeCall` -/

/-- The expression of `makeCall`. -/
def formatting : List CharClass.Item := (CharClass.ofPattern "[+1 () -]".toList).getD []

/-- The `callString` of `makeCall`. -/
def callString (phone : String) : String :=
  "tel://" ++ String.ofList (CharClass.replaceAll formatting [] phone.toList)

/-- `UIViewController.makeCall`: the URL that is opened, if it is one and the device
can open it. -/
def makeCall {URL : Type} (url : String → Option URL) (canOpenURL : URL → Bool)
    (phone : String) : Option URL :=
  (url (callString phone)).filter canOpenURL

/-! ## 2. Phone numbers -/

def digits (s : List Char) : List Char := s.filter Char.isDigit

/-- What may stand between the digits. -/
def separators : List Char := [' ', '(', ')', '-']

/-- The phone number without a leading `+1`. -/
def withoutCountryCode (phone : String) : List Char :=
  match phone.toList with
  | '+' :: '1' :: rest => rest
  | cs => cs

/-- The phone number without its country code and its separators. -/
def placeNumber (phone : String) : List Char :=
  (withoutCountryCode phone).filter (· ∉ separators)

/-- An optional country code, then digits and separators. -/
def IsPhoneText (phone : String) : Prop :=
  ∀ c ∈ withoutCountryCode phone, c.isDigit ∨ c ∈ separators

instance (phone : String) : Decidable (IsPhoneText phone) :=
  decidable_of_iff ((withoutCountryCode phone).all fun c => c.isDigit || separators.contains c)
    (by simp [IsPhoneText])

namespace PhoneLemmas

theorem formatting_eq : formatting = [.char '+', .char '1', .char ' ', .char '(', .char ')',
    .char ' ', .char '-'] := by
  decide

/-- The expression matches a `1` wherever it stands. -/
theorem matches_formatting {c : Char} :
    CharClass.Matches formatting c ↔ c = '+' ∨ c = '1' ∨ c ∈ separators := by
  rw [formatting_eq]
  simp only [CharClass.Matches, CharClass.Item.Matches, separators, List.any_cons, List.any_nil,
    Bool.or_false, Bool.or_eq_true, beq_iff_eq, List.mem_cons, List.not_mem_nil, or_false]
  tauto

theorem toList_callString (phone : String) :
    (callString phone).toList =
      "tel://".toList ++ phone.toList.filter fun c => !CharClass.Matches formatting c := by
  simp only [callString, String.toList_append, String.toList_ofList,
    CharClass.deleteAll_eq_filter]

theorem not_isDigit_separator {c : Char} (h : c ∈ separators) : c.isDigit = false := by
  simp only [separators, List.mem_cons, List.not_mem_nil, or_false] at h
  rcases h with rfl | rfl | rfl | rfl <;> rfl

/-- A digit is taken out iff it is a `1`. -/
theorem digit_matches {c : Char} (h : c.isDigit) :
    CharClass.Matches formatting c = decide (c = '1') := by
  rw [Bool.eq_iff_iff, matches_formatting, decide_eq_true_iff]
  constructor
  · rintro (rfl | hone | hsep)
    · cases h
    · exact hone
    · rw [not_isDigit_separator hsep] at h
      cases h
  · exact fun hone => .inr (.inl hone)

theorem toList_eq (phone : String) :
    phone.toList = '+' :: '1' :: withoutCountryCode phone ∨
      phone.toList = withoutCountryCode phone := by
  unfold withoutCountryCode
  split
  · next rest h => exact .inl h
  · exact .inr rfl

/-- The country code does not reach the URL. -/
theorem filter_withoutCountryCode (phone : String) :
    phone.toList.filter (fun c => !CharClass.Matches formatting c) =
      (withoutCountryCode phone).filter fun c => !CharClass.Matches formatting c := by
  have hplus : CharClass.Matches formatting '+' = true := matches_formatting.mpr (.inl rfl)
  have hone : CharClass.Matches formatting '1' = true := matches_formatting.mpr (.inr (.inl rfl))
  rcases toList_eq phone with h | h
  · rw [h, List.filter_cons, List.filter_cons, hplus, hone]
    rfl
  · rw [h]

theorem digits_placeNumber (phone : String) :
    digits (placeNumber phone) = digits (withoutCountryCode phone) := by
  unfold digits placeNumber
  rw [List.filter_filter]
  refine List.filter_congr fun c _ => ?_
  by_cases hc : c ∈ separators
  · rw [not_isDigit_separator hc]
    rfl
  · simp [hc]

/-- The dialled digits are those of the number that are not `1`. -/
theorem digits_callString (phone : String) :
    digits (callString phone).toList =
      (digits (withoutCountryCode phone)).filter fun c => decide (c ≠ '1') := by
  rw [toList_callString, filter_withoutCountryCode]
  unfold digits
  rw [List.filter_append, List.filter_filter, List.filter_filter]
  refine List.filter_congr fun c _ => ?_
  by_cases hc : c.isDigit
  · rw [digit_matches hc, hc, decide_not]
    exact Bool.and_comm _ _
  · simp [hc]

end PhoneLemmas

open PhoneLemmas

/-! ## 3. What is dialled -/

/-- Two phone numbers open the same URL iff they have the same digits other than
`1`. -/
theorem callString_eq_iff {phone phone' : String} (h : IsPhoneText phone)
    (h' : IsPhoneText phone') :
    callString phone = callString phone' ↔
      (digits (placeNumber phone)).filter (· ≠ '1') =
        (digits (placeNumber phone')).filter (· ≠ '1') := by
  have hkept : ∀ {p : String}, IsPhoneText p →
      p.toList.filter (fun c => !CharClass.Matches formatting c) =
        (digits (placeNumber p)).filter (· ≠ '1') := by
    intro p hp
    rw [filter_withoutCountryCode, digits_placeNumber, digits, List.filter_filter]
    refine List.filter_congr fun c hc => ?_
    rcases hp c hc with hdigit | hsep
    · rw [digit_matches hdigit, hdigit, Bool.and_true, decide_not]
    · rw [matches_formatting.mpr (.inr (.inr hsep)), not_isDigit_separator hsep, Bool.and_false]
      rfl
  rw [← hkept h, ← hkept h', ← String.toList_inj, toList_callString, toList_callString,
    List.append_cancel_left_eq]

/-- The dialled digits are those of the phone number without its country code and
separators iff none of them is a `1`: the expression matches one character at a
time, so the `1` of a leading `+1` is not all it takes out. -/
theorem digits_callString_iff (phone : String) :
    digits (callString phone).toList = digits (placeNumber phone) ↔
      '1' ∉ withoutCountryCode phone := by
  rw [digits_callString, digits_placeNumber, List.filter_eq_self]
  constructor
  · intro h hone
    have hdigit : '1' ∈ digits (withoutCountryCode phone) := List.mem_filter.mpr ⟨hone, rfl⟩
    exact of_decide_eq_true (h '1' hdigit) rfl
  · rintro h c hc
    refine decide_eq_true fun hone => h ?_
    rw [← hone]
    exact (List.mem_filter.mp hc).1

/-- The number of a hotel, with a `1` in it. -/
def exPhone : String := "+1 (212) 761-3000"

theorem digits_callString_loses :
    ¬ ∀ phone : String, IsPhoneText phone →
      digits (callString phone).toList = digits (placeNumber phone) := by
  intro h
  have hdialled := h exPhone (by decide)
  rw [digits_callString] at hdialled
  revert hdialled
  decide

end LocateMe
