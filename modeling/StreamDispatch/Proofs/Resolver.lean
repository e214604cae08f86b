import Mathlib.Data.Finset.Dedup
import Mathlib.Data.Finset.Card
import StreamDispatch.Proofs.Message.Registration
import StreamDispatch.Resolver

set_option autoImplicit false

/-! # What is built from a list of bindings

A resolver knows a registration exactly if some binding of it has a handler that could be made, and
it gives the handler of the first of those. Bindings are added one by one, and each step does to the
table what the next binding adds to that description: nothing, if its handler could not be made or
if there is an earlier one, or else one more entry. The table, its listing, its size and the log are
all read from this. -/

namespace StreamDispatch

/-! ## Bindings -/

namespace Binding

/-- The handler of the first binding of a registration that could be made. -/
def firstMade (bindings : List Binding) (r : Registration) : Option Handler :=
  bindings.findSome? fun b => if b.registration = r then b.made.toOption else none

/-- The registrations for which a handler could be made. -/
def working (bindings : List Binding) : Finset Registration :=
  ((bindings.filter fun b => b.made.isOk).map fun b => b.registration).toFinset

variable {bindings rest : List Binding} {b : Binding} {r : Registration}

theorem firstMade_cons : firstMade (b :: rest) r
    = (if b.registration = r then b.made.toOption else none).or (firstMade rest r) := by
  rw [firstMade, List.findSome?_cons]
  cases (if b.registration = r then b.made.toOption else none) <;> rfl

theorem mem_working_iff : r ∈ working bindings ↔
    ∃ b ∈ bindings, b.registration = r ∧ b.made.isOk = true := by
  simp only [working, List.mem_toFinset, List.mem_map, List.mem_filter]
  exact ⟨fun ⟨b, ⟨hb, hok⟩, hr⟩ => ⟨b, hb, hr, hok⟩, fun ⟨b, hb, hr, hok⟩ => ⟨b, ⟨hb, hok⟩, hr⟩⟩

theorem isSome_toOption {α : Type} {ε : Type} {x : Except ε α} :
    x.toOption.isSome = x.isOk := by
  cases x <;> rfl

theorem isSome_firstMade_iff : (firstMade bindings r).isSome = true ↔ r ∈ working bindings := by
  rw [mem_working_iff, firstMade, List.findSome?_isSome_iff]
  refine exists_congr fun b => and_congr_right fun _ => ?_
  split
  · next hr => simp [hr, isSome_toOption]
  · next hr => simp [hr]

end Binding

namespace Resolver

open Binding (firstMade working)

variable {resolver : Resolver} {bindings rest earlier : List Binding} {b : Binding}
  {r : Registration}

/-! ## The table -/

theorem find_append_singleton {table : List (Registration × Handler)} {r' : Registration}
    {h : Handler} :
    find r (table ++ [(r', h)]) = (find r table).or (if r' = r then some h else none) := by
  induction table with
  | nil => rfl
  | cons e rest ih =>
    obtain ⟨k, g⟩ := e
    simp only [List.cons_append, find, ih]
    split <;> rfl

theorem isSome_find_iff {table : List (Registration × Handler)} :
    (find r table).isSome = true ↔ r ∈ table.map Prod.fst := by
  induction table with
  | nil => simp [find]
  | cons e rest ih =>
    obtain ⟨k, g⟩ := e
    by_cases hk : k = r
    · simp [find, hk]
    · simp [find, hk, ih, Ne.symm hk]

theorem contains_iff : resolver.contains r = true ↔ r ∈ resolver.table.map Prod.fst :=
  isSome_find_iff

/-- A binding adds its handler, if it could be made and its registration has none yet. -/
theorem get?_bind : (resolver.bind b).1.get? r
    = (resolver.get? r).or (if b.registration = r then b.made.toOption else none) := by
  unfold bind
  split
  · next causes hmade => simp [hmade, Except.toOption]
  · next h hmade =>
    split
    · next hcontains =>
      by_cases hr : b.registration = r
      · obtain ⟨g, hg⟩ := Option.isSome_iff_exists.mp (hr ▸ hcontains)
        simp [hg]
      · simp [hr]
    · simp [get?, find_append_singleton, hmade, Except.toOption]

theorem get?_bindAll : (resolver.bindAll rest).1.get? r
    = (resolver.get? r).or (firstMade rest r) := by
  induction rest generalizing resolver with
  | nil => simp [bindAll, firstMade]
  | cons b rest ih => rw [bindAll, ih, get?_bind, Binding.firstMade_cons, Option.or_assoc]

/-- No registration stands twice in a table. -/
def IsDistinct (resolver : Resolver) : Prop := (resolver.table.map Prod.fst).Nodup

theorem IsDistinct.bind (h : resolver.IsDistinct) : (resolver.bind b).1.IsDistinct := by
  unfold Resolver.bind
  split
  · exact h
  · split
    · exact h
    · next hnew =>
      rw [contains_iff] at hnew
      simpa [IsDistinct, List.nodup_append] using ⟨h, fun a g hg heq => hnew (by
        subst heq
        exact List.mem_map_of_mem (f := Prod.fst) hg)⟩

theorem IsDistinct.bindAll (h : resolver.IsDistinct) : (resolver.bindAll rest).1.IsDistinct := by
  induction rest generalizing resolver with
  | nil => exact h
  | cons b rest ih => exact ih h.bind

/-- Bindings without a handler leave no trace in the table. -/
theorem bindAll_filter :
    (resolver.bindAll (rest.filter fun b => b.made.isOk)).1 = (resolver.bindAll rest).1 := by
  induction rest generalizing resolver with
  | nil => rfl
  | cons b rest ih =>
    cases hmade : b.made with
    | error causes =>
      have hbind : (resolver.bind b).1 = resolver := by simp [Resolver.bind, hmade]
      rw [List.filter_cons_of_neg (by simp [hmade, Except.isOk, Except.toBool]), ih, bindAll]
      simp only [hbind]
    | ok h =>
      rw [List.filter_cons_of_pos (by simp [hmade, Except.isOk, Except.toBool])]
      simp only [bindAll]
      exact ih

/-! ## What has been built -/

theorem get?_build : (build bindings).1.get? r = firstMade bindings r := get?_bindAll

theorem contains_build_iff : (build bindings).1.contains r = true ↔ r ∈ working bindings := by
  rw [contains, get?_build, Binding.isSome_firstMade_iff]

theorem isDistinct_build : (build bindings).1.IsDistinct := IsDistinct.bindAll .nil

theorem mem_keys_build_iff :
    r ∈ (build bindings).1.table.map Prod.fst ↔ r ∈ working bindings := by
  rw [← contains_iff, contains_build_iff]

theorem size_build : (build bindings).1.size = (working bindings).card := by
  have hkeys : ((build bindings).1.table.map Prod.fst).toFinset = working bindings := by
    ext r
    rw [List.mem_toFinset, mem_keys_build_iff]
  rw [← hkeys, List.toFinset_card_of_nodup isDistinct_build, List.length_map, size]

/-! ## The listing -/

theorem mem_registrations_iff :
    r ∈ resolver.registrations ↔ r ∈ resolver.table.map Prod.fst :=
  (List.mergeSort_perm _ _).mem_iff

/-- Registrations of a table are listed in ascending order. -/
theorem IsDistinct.pairwise_registrations (h : resolver.IsDistinct) :
    resolver.registrations.Pairwise fun a b => a.before b = true := by
  have hsorted : resolver.registrations.Pairwise fun a b => (!b.before a) = true := by
    refine List.pairwise_mergeSort ?_ ?_ _
    · intro a b c hab hbc
      simp only [Bool.not_eq_true'] at hab hbc ⊢
      exact Registration.not_before_trans hab hbc
    · intro a b
      cases hba : b.before a with
      | false => rfl
      | true => simpa using Registration.before_asymm hba
  have hnodup : resolver.registrations.Nodup := (List.mergeSort_perm _ _).nodup_iff.mpr h
  refine (hsorted.and hnodup).imp ?_
  rintro a b ⟨hle, hne⟩
  by_contra hlt
  exact hne (Registration.eq_of_not_before hlt (by simpa using hle))

theorem registrations_eq_of_perm {bindings' : List Binding} (hp : bindings.Perm bindings') :
    (build bindings').1.registrations = (build bindings).1.registrations := by
  have hnodup (bindings : List Binding) : (build bindings).1.registrations.Nodup :=
    (List.mergeSort_perm _ _).nodup_iff.mpr isDistinct_build
  have hperm : (build bindings').1.registrations.Perm (build bindings).1.registrations := by
    rw [List.perm_ext_iff_of_nodup (hnodup _) (hnodup _)]
    intro r
    rw [mem_registrations_iff, mem_registrations_iff, mem_keys_build_iff, mem_keys_build_iff,
      Binding.mem_working_iff, Binding.mem_working_iff]
    simp only [hp.mem_iff]
  exact hperm.eq_of_pairwise (fun _ _ _ _ hab hba => absurd hba (Registration.before_asymm hab))
    isDistinct_build.pairwise_registrations isDistinct_build.pairwise_registrations

/-! ## The log -/

/-- The line for a binding that comes after others. -/
def lineAfter (earlier : List Binding) (b : Binding) : Log.Line :=
  let registration := ("registration", b.registration.text)
  match b.made with
  | .error causes =>
    Log.error "❌ Handler factory did not produce a valid handler, skipping"
      [registration, ("error", causeText causes)]
  | .ok h =>
    if (firstMade earlier b.registration).isSome then
      Log.error "❌ Duplicate handler registration, keeping the first binding"
        [registration, ("handler", h.name)]
    else Log.debug "Registering handler" [registration, ("handler", h.name)]

theorem bind_snd (h : ∀ r, resolver.get? r = firstMade earlier r) :
    (resolver.bind b).2 = lineAfter earlier b := by
  cases hmade : b.made with
  | error causes => simp [bind, lineAfter, hmade]
  | ok g =>
    simp only [bind, lineAfter, hmade, contains, h]
    split <;> rfl

theorem bindAll_snd (h : ∀ r, resolver.get? r = firstMade earlier r) :
    (resolver.bindAll rest).2 = rest.mapIdx fun i b => lineAfter (earlier ++ rest.take i) b := by
  induction rest generalizing resolver earlier with
  | nil => rfl
  | cons b rest ih =>
    have hnext (r : Registration) : (resolver.bind b).1.get? r = firstMade (earlier ++ [b]) r := by
      rw [get?_bind, h, firstMade, firstMade, List.findSome?_append, List.findSome?_singleton]
    rw [List.mapIdx_cons, bindAll]
    simp [bind_snd h, ih hnext]

/-! ## A resolver as its bindings describe it -/

/-- A resolver and the log of its making are what a list of bindings makes of them. -/
structure IsBuiltFrom (bindings : List Binding) (resolver : Resolver) (lines : List Log.Line) :
    Prop where
  /-- No handler is found for headers exactly if they have a version that is none. -/
  invalid_iff : ∀ headers messageId e, resolver.choose headers messageId = .error e ↔
    e.messageId = messageId ∧ headers.get? Headers.messageTypeVersion = some e.value
      ∧ ∀ v, ¬Registration.IsVersion e.value v
  /-- Otherwise it is the one of the first binding of the registration that the headers name, among
  those whose handlers could be made, -/
  chosen_iff : ∀ headers messageId h, resolver.choose headers messageId = .ok h ↔
    ∃ r : Registration, r.IsNamedBy headers ∧ h = firstMade bindings r
  /-- and the handler of unknown types if there is none. -/
  handler : ∀ ticket headers messageId (r : Registration), r.IsNamedBy headers →
    resolver.chooser.choose ticket headers messageId
      = .handler ((firstMade bindings r).getD .unknownType)
  /-- A binding whose handler could not be made counts for nothing. -/
  failed : (build (bindings.filter fun b => b.made.isOk)).1 = resolver
  contains_iff : ∀ r, resolver.contains r = true ↔ r ∈ working bindings
  size_eq : resolver.size = (working bindings).card
  mem_registrations : ∀ r, r ∈ resolver.registrations ↔ r ∈ working bindings
  ascending : resolver.registrations.Pairwise fun a b =>
    Text.bytes a.messageType < Text.bytes b.messageType
      ∨ a.messageType = b.messageType ∧ a.version < b.version
  any_order : ∀ bindings', bindings.Perm bindings' →
    (build bindings').1.registrations = resolver.registrations
  /-- There is one line for each binding, and then one for the table. -/
  lines_eq : lines = bindings.mapIdx (fun i b => lineAfter (bindings.take i) b)
    ++ [Log.info "📚 Dispatch table built" [("handlers", toString (working bindings).card)]]

theorem choose_eq_error_iff {headers : Headers} {messageId : String} {e : InvalidVersion} :
    resolver.choose headers messageId = .error e ↔
      e.messageId = messageId ∧ headers.get? Headers.messageTypeVersion = some e.value
        ∧ ∀ v, ¬Registration.IsVersion e.value v := by
  obtain ⟨id, value⟩ := e
  cases hr : Registration.ofHeaders headers with
  | error cause =>
    obtain ⟨raw, hraw, hnone⟩ := Registration.exists_ofHeaders_error_iff.mp ⟨cause, hr⟩
    simp only [choose, hr, hraw, Option.getD_some, Except.error.injEq, InvalidVersion.mk.injEq,
      Option.some.injEq]
    exact ⟨fun ⟨hid, hvalue⟩ => ⟨hid.symm, hvalue, hvalue ▸ hnone⟩,
      fun ⟨hid, hvalue, _⟩ => ⟨hid.symm, hvalue⟩⟩
  | ok r =>
    refine ⟨fun h => by simp [choose, hr] at h, fun ⟨_, hvalue, hnone⟩ => ?_⟩
    obtain ⟨cause, hcause⟩ :=
      Registration.exists_ofHeaders_error_iff.mpr ⟨value, hvalue, hnone⟩
    cases hr.symm.trans hcause

theorem choose_eq_ok_iff {headers : Headers} {messageId : String} {h : Option Handler} :
    resolver.choose headers messageId = .ok h ↔
      ∃ r : Registration, r.IsNamedBy headers ∧ h = resolver.get? r := by
  simp only [← Registration.ofHeaders_eq_ok_iff]
  cases hr : Registration.ofHeaders headers with
  | error cause => simp [choose, hr]
  | ok r => simp [choose, hr, eq_comm]

/-- Every list of bindings is built into what it describes. -/
theorem isBuiltFrom_build (bindings : List Binding) :
    IsBuiltFrom bindings (build bindings).1 (build bindings).2 where
  invalid_iff _ _ _ := choose_eq_error_iff
  chosen_iff _ _ _ := by simp only [choose_eq_ok_iff, get?_build]
  handler ticket headers messageId r hr := by
    have hchoose : (build bindings).1.choose headers messageId = .ok (firstMade bindings r) :=
      choose_eq_ok_iff.mpr ⟨r, hr, get?_build.symm⟩
    simp [chooser, hchoose]
  failed := bindAll_filter
  contains_iff _ := contains_build_iff
  size_eq := size_build
  mem_registrations _ := mem_registrations_iff.trans mem_keys_build_iff
  ascending := isDistinct_build.pairwise_registrations.imp fun h => Registration.before_iff.mp h
  any_order _ := registrations_eq_of_perm
  lines_eq := by
    have hlines : (empty.bindAll bindings).2
        = bindings.mapIdx fun i b => lineAfter ([] ++ bindings.take i) b :=
      bindAll_snd fun r => rfl
    rw [← size_build]
    exact congrArg (· ++ _) hlines

end Resolver

end StreamDispatch
