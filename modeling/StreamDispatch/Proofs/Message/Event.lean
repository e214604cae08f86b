import Mathlib.Data.List.Induction
import StreamDispatch.Message.Event
import StreamDispatch.Proofs.Message.Registration

set_option autoImplicit false

/-! # Headers that are set one after the other

A call sets one header of an event, or the two that name a registration. Under each name stands what
the last call put there that set it (`get?_setAll`). So the registration of an event hangs on the
last calls that set one of the two headers, and if both were set by one call it is the registration
of that call: the digits that are written for a version are read as that version, over the whole
range of 32 bits (`Registration.ofHeaders_exact`). -/

namespace StreamDispatch

namespace Text

theorem isTrimOf_self {cs : List Char} (h : ∀ c ∈ cs, isBlank c = false) : IsTrimOf cs cs :=
  ⟨⟨[], [], by simp, nofun, nofun⟩, fun c hc => h c (List.mem_of_mem_head? hc),
    fun c hc => h c (List.mem_of_getLast? hc)⟩

theorem isBlank_of_isDigit {c : Char} (h : c.isDigit = true) : isBlank c = false := by
  have hrange : 48 ≤ c.toNat ∧ c.toNat ≤ 57 := by
    simp only [Char.isDigit, Bool.and_eq_true, decide_eq_true_eq] at h
    exact h
  simp only [isBlank, Bool.or_eq_false_iff, Bool.and_eq_false_iff, beq_eq_false_iff_ne,
    decide_eq_false_iff_not]
  omega

/-- There are no blanks in what is written for an integer. -/
theorem isBlank_of_mem_toString {n : Int} {c : Char} (h : c ∈ (toString n).toList) :
    isBlank c = false := by
  obtain ⟨m, -, hchars⟩ | ⟨m, -, hchars⟩ := Number.toList_toString n
  · exact isBlank_of_isDigit (Number.isDigit_of_mem_toDigits (hchars ▸ h))
  · rw [hchars, List.mem_cons] at h
    rcases h with rfl | h
    · decide
    · exact isBlank_of_isDigit (Number.isDigit_of_mem_toDigits h)

end Text

namespace Event

/-! ## Calls -/

/-- A call that sets headers of an event. -/
inductive Setting
  | header (name value : String)
  | registration (messageType : String) (version : Int32)
  deriving DecidableEq

/-- What a call puts under a name. -/
def Setting.value? (name : String) : Setting → Option String
  | .header key value => if name = key then some value else none
  | .registration messageType version =>
    if name = Headers.messageTypeVersion then some (toString version)
    else if name = Headers.messageType then some messageType else none

/-- An event after a call. -/
def set (e : Event) : Setting → Event
  | .header name value => e.withHeader name value
  | .registration messageType version => e.withMessageType messageType version

/-- An event after calls. -/
def setAll (e : Event) (settings : List Setting) : Event := settings.foldl set e

/-- The last of the calls that put something under a name. -/
def lastTo? (name : String) (settings : List Setting) : Option Setting :=
  settings.reverse.find? fun s => (s.value? name).isSome

variable {e e' : Event} {name : String} {s : Setting} {settings settings' : List Setting}

theorem get?_set : (e.set s).headers.get? name = (s.value? name).or (e.headers.get? name) := by
  cases s with
  | header key value =>
    rw [set, withHeader, Dictionary.get?_insert, Setting.value?]
    split <;> rfl
  | registration messageType version =>
    rw [set, withMessageType, withHeader, withHeader, Dictionary.get?_insert,
      Dictionary.get?_insert, Setting.value?]
    split
    · rfl
    · split <;> rfl

theorem lastTo?_concat : lastTo? name (settings ++ [s])
    = if (s.value? name).isSome then some s else lastTo? name settings := by
  rw [lastTo?, List.reverse_append, List.reverse_singleton, List.singleton_append, List.find?_cons]
  cases (s.value? name).isSome <;> rfl

/-- Under a name stands what the last call put there that put something there. -/
theorem get?_setAll : (e.setAll settings).headers.get? name
    = (lastTo? name settings).elim (e.headers.get? name) fun s => s.value? name := by
  induction settings using List.reverseRecOn with
  | nil => rfl
  | append_singleton settings s ih =>
    rw [lastTo?_concat, setAll, List.foldl_append, List.foldl_cons, List.foldl_nil, get?_set]
    cases hs : s.value? name with
    | some value => simp [hs]
    | none => exact ih

end Event

/-! ## Registrations -/

namespace Registration

open Event (Setting lastTo?)
open Number (Denotes IntegerError IsFault)
open Text (IsTrimOf)

variable {e e' : Event} {settings settings' : List Setting} {headers headers' : Headers}

/-- Nothing but two headers decides which registration headers name. -/
theorem ofHeaders_congr
    (h : ∀ name ∈ [Headers.messageType, Headers.messageTypeVersion],
      headers.get? name = headers'.get? name) : ofHeaders headers = ofHeaders headers' := by
  rw [ofHeaders, ofHeaders, h Headers.messageType (by simp),
    h Headers.messageTypeVersion (by simp)]

/-- The digits that are written for a version are read as that version. -/
theorem isVersion_toString (v : Int32) : IsVersion (toString v) v :=
  ⟨_, Text.isTrimOf_self fun _ => Text.isBlank_of_mem_toString,
    Number.denotes_toString v.toInt⟩

/-- An event that was given a registration by one call has this registration, until one of the two
headers is set anew. -/
theorem ofHeaders_setAll_registration {messageType : String} {version : Int32}
    (htype : lastTo? Headers.messageType settings = some (.registration messageType version))
    (hversion : lastTo? Headers.messageTypeVersion settings
      = some (.registration messageType version)) :
    ofHeaders (e.setAll settings).headers = .ok ⟨messageType, version⟩ := by
  have hnever : Headers.messageType ≠ Headers.messageTypeVersion := by decide
  have ht : (e.setAll settings).headers.get? Headers.messageType = some messageType := by
    rw [Event.get?_setAll, htype, Option.elim_some, Setting.value?, if_neg hnever, if_pos rfl]
  have hv : (e.setAll settings).headers.get? Headers.messageTypeVersion
      = some (toString version) := by
    rw [Event.get?_setAll, hversion, Option.elim_some, Setting.value?, if_pos rfl]
  refine ofHeaders_eq_ok_iff.mpr ⟨by rw [ht]; rfl, fun h => ?_, fun raw h => ?_⟩
  · cases hv.symm.trans h
  · cases hv.symm.trans h
    exact isVersion_toString version

/-- Headers name a registration unless their version is something else than a numeral in range. -/
theorem exists_ofHeaders_ok_iff : (∃ r, ofHeaders headers = .ok r) ↔
    ∀ raw, headers.get? Headers.messageTypeVersion = some raw →
      ∃ cs z, IsTrimOf cs raw.toList ∧ Denotes cs z ∧ -2147483648 ≤ z ∧ z ≤ 2147483647 := by
  constructor
  · rintro ⟨r, hr⟩ raw hraw
    obtain ⟨cs, htrim, hcs⟩ := (ofHeaders_eq_ok_iff.mp hr).version_of_some raw hraw
    have hlow := r.version.le_toInt
    have hhigh := r.version.toInt_lt
    exact ⟨cs, _, htrim, hcs, hlow, by omega⟩
  · intro h
    cases hv : headers.get? Headers.messageTypeVersion with
    | none =>
      exact ⟨⟨_, 0⟩, ofHeaders_eq_ok_iff.mpr ⟨rfl, fun _ => rfl, by simp [hv]⟩⟩
    | some raw =>
      obtain ⟨cs, z, htrim, hcs, hlow, hhigh⟩ := h raw hv
      refine ⟨⟨_, .ofInt z⟩, ofHeaders_eq_ok_iff.mpr ⟨rfl, by simp [hv], fun raw' hraw => ?_⟩⟩
      cases hv.symm.trans hraw
      refine ⟨cs, htrim, ?_⟩
      rwa [Int32.toInt_ofInt_of_le (by omega) (by omega)]

/-- Which registration headers name and why they name none, and which one an event has whose headers
were set by calls. -/
theorem ofHeaders_exact :
    (∀ headers r, ofHeaders headers = .ok r ↔ r.IsNamedBy headers)
    ∧ (∀ headers, (∃ r, ofHeaders headers = .ok r) ↔
      ∀ raw, headers.get? Headers.messageTypeVersion = some raw →
        ∃ cs z, IsTrimOf cs raw.toList ∧ Denotes cs z ∧ -2147483648 ≤ z ∧ z ≤ 2147483647)
    ∧ (∀ headers e, ofHeaders headers = .error e ↔
      ∃ raw cs, headers.get? Headers.messageTypeVersion = some raw ∧ IsTrimOf cs raw.toList
        ∧ IsFault (Nat.pow 2 31) (Nat.pow 2 31 - 1) cs e)
    ∧ (∀ (e : Event) settings name, (e.setAll settings).headers.get? name
      = (lastTo? name settings).elim (e.headers.get? name) fun s => s.value? name)
    ∧ (∀ (e e' : Event) settings settings',
      (∀ name ∈ [Headers.messageType, Headers.messageTypeVersion],
        lastTo? name settings = lastTo? name settings'
          ∧ (lastTo? name settings = none → e.headers.get? name = e'.headers.get? name)) →
      ofHeaders (e.setAll settings).headers = ofHeaders (e'.setAll settings').headers)
    ∧ ∀ (e : Event) settings messageType version,
      lastTo? Headers.messageType settings = some (.registration messageType version) →
      lastTo? Headers.messageTypeVersion settings = some (.registration messageType version) →
      ofHeaders (e.setAll settings).headers = .ok ⟨messageType, version⟩ := by
  refine ⟨fun _ _ => ofHeaders_eq_ok_iff, fun _ => exists_ofHeaders_ok_iff,
    fun _ _ => ofHeaders_eq_error_iff, fun _ _ _ => Event.get?_setAll,
    fun e e' settings settings' h => ofHeaders_congr fun name hname => ?_,
    fun _ _ _ _ => ofHeaders_setAll_registration⟩
  obtain ⟨hlast, hnone⟩ := h name hname
  rw [Event.get?_setAll, Event.get?_setAll, ← hlast]
  cases hl : lastTo? name settings with
  | none => exact hnone hl
  | some s => rfl

/-- Calls of which the second one gives the registration. -/
def sampleSettings : List Setting :=
  [.header Headers.messageTypeVersion "x", .registration "Order" (-2147483648),
    .header Headers.deviceId "7"]

theorem ofHeaders_exact_order :
    (lastTo? Headers.messageType sampleSettings = some (.registration "Order" (-2147483648))
        ∧ lastTo? Headers.messageTypeVersion sampleSettings
          = some (.registration "Order" (-2147483648)))
      ∧ ofHeaders ((Event.new "0" "key" []).setAll sampleSettings).headers
        = .ok ⟨"Order", -2147483648⟩
      ∧ ofHeaders ((Event.new "0" "key" []).withHeader Headers.messageTypeVersion
        " +2147483648x").headers = .error .tooLarge := by
  obtain ⟨-, -, herror, -, -, hregistration⟩ := ofHeaders_exact
  have htype : lastTo? Headers.messageType sampleSettings
      = some (.registration "Order" (-2147483648)) := by decide
  have hversion : lastTo? Headers.messageTypeVersion sampleSettings
      = some (.registration "Order" (-2147483648)) := by decide
  have hdigits : Number.IsDigits "2147483648".toList := ⟨by decide, by simp⟩
  refine ⟨⟨htype, hversion⟩, hregistration _ _ _ _ htype hversion, (herror _ _).mpr ?_⟩
  exact ⟨" +2147483648x", "+2147483648x".toList, rfl, Text.isTrimOf_iff.mpr (by decide),
    "+2147483648".toList, _, ⟨['x'], rfl⟩, .plus hdigits, by decide⟩

end Registration

end StreamDispatch
