import PrintGen.Proofs.Outcome
import PrintGen.Settings
import Mathlib.Data.List.Perm.Basic

/-!
# The keys of settings

Reading settings from an object amounts to looking up six keys. Other members do not matter, and
neither does the order, with the exception of four reserved keys: two of them cannot be set, one
replaces everything that is stored, and one makes the settings unwritable. Settings that can be
written are read back as they are.
-/

namespace PrintGen

open Text (CodeText)
open Text.CodeText (ofString)

theorem Text.CodeText.ofString_eq_iff {s t : String} : ofString s = ofString t ↔ s = t :=
  ⟨Text.CodeText.ofString_inj, congrArg ofString⟩

/-! ## Members by their keys -/

namespace Json

/-- The keys of an object are distinct. -/
abbrev DistinctKeys (members : List (CodeText × Json)) : Prop :=
  (members.map Prod.fst).Nodup

section

variable {key : String} {k : CodeText} {v : Json} {members others : List (CodeText × Json)}

theorem member?_cons :
    member? key ((k, v) :: members) =
      if k = CodeText.ofString key then some v else member? key members :=
  rfl

theorem valueAt?_eq_none (h : k ∉ members.map Prod.fst) : valueAt? k members = none := by
  induction members with
  | nil => rfl
  | cons m rest ih =>
    rw [List.map_cons, List.mem_cons, not_or] at h
    rw [valueAt?, if_neg (Ne.symm h.1), ih h.2]

/-- With distinct keys, looking up a key finds the one member that has it. -/
theorem valueAt?_eq_some_iff (h : DistinctKeys members) :
    valueAt? k members = some v ↔ (k, v) ∈ members := by
  induction members with
  | nil => simp [valueAt?]
  | cons m rest ih =>
    obtain ⟨k', v'⟩ := m
    obtain ⟨hfresh, hrest⟩ := List.nodup_cons.mp h
    by_cases hk : k' = k
    · subst hk
      have hmem : (k', v) ∉ rest := fun hm => hfresh (List.mem_map.mpr ⟨_, hm, rfl⟩)
      simp [valueAt?, hmem, eq_comm]
    · rw [valueAt?, if_neg hk, ih hrest, List.mem_cons]
      exact ⟨.inr, fun hm => hm.resolve_left fun he => hk (Prod.ext_iff.mp he).1.symm⟩

theorem member?_congr (hm : DistinctKeys members) (ho : DistinctKeys others)
    (h : ∀ v, (CodeText.ofString key, v) ∈ members ↔ (CodeText.ofString key, v) ∈ others) :
    member? key members = member? key others := by
  refine Option.ext fun v => ?_
  rw [member?, member?, valueAt?_eq_some_iff hm, valueAt?_eq_some_iff ho]
  exact h v

end

/-! ## Equality of values -/

mutual

/-- All objects inside of a value have distinct keys, as those that are read have. -/
def Keyed : Json → Prop
  | .arr items => KeyedItems items
  | .obj members => DistinctKeys members ∧ KeyedMembers members
  | _ => True

/-- The same for the items of an array. -/
def KeyedItems : List Json → Prop
  | [] => True
  | v :: rest => Keyed v ∧ KeyedItems rest

/-- The same for the members of an object. -/
def KeyedMembers : List (CodeText × Json) → Prop
  | [] => True
  | (_, v) :: rest => Keyed v ∧ KeyedMembers rest

end

theorem sameValue_self (x : Binary64) : x.sameValue x = true := by
  unfold Binary64.sameValue
  split
  · rfl
  · exact beq_self_eq_true x

theorem keyedItems_iff {items : List Json} : KeyedItems items ↔ ∀ v ∈ items, v.Keyed := by
  induction items with
  | nil => simp [KeyedItems]
  | cons v rest ih => rw [KeyedItems, ih, List.forall_mem_cons]

theorem keyedMembers_iff {members : List (CodeText × Json)} :
    KeyedMembers members ↔ ∀ m ∈ members, m.2.Keyed := by
  induction members with
  | nil => simp [KeyedMembers]
  | cons m rest ih => rw [KeyedMembers, ih, List.forall_mem_cons]

theorem sameItems_self {items : List Json} (h : ∀ v ∈ items, v.same v = true) :
    sameItems items items = true := by
  induction items with
  | nil => rw [sameItems]
  | cons v rest ih =>
    obtain ⟨hv, hrest⟩ := List.forall_mem_cons.mp h
    rw [sameItems, hv, ih hrest, Bool.and_self]

/-- Members that another object has as well are equal there. -/
theorem sameMembers_of_valueAt? {members others : List (CodeText × Json)}
    (hin : ∀ m ∈ members, valueAt? m.1 others = some m.2)
    (h : ∀ m ∈ members, m.2.same m.2 = true) : sameMembers members others = true := by
  induction members with
  | nil => rw [sameMembers]
  | cons m rest ih =>
    obtain ⟨hm, hrest⟩ := List.forall_mem_cons.mp hin
    obtain ⟨hv, hvs⟩ := List.forall_mem_cons.mp h
    rw [sameMembers, hm, ih hrest hvs, Bool.and_true]
    exact hv

/-- Every value equals itself. -/
theorem same_self {v : Json} (h : v.Keyed) : v.same v = true := by
  -- The values inside are smaller, whether they stand in an array or in an object.
  induction hn : sizeOf v using Nat.strongRecOn generalizing v with
  | ind n ih =>
    subst hn
    cases v with
    | null => simp [same]
    | bool b => simp [same, asInt?]
    | int n => simp [same, asInt?]
    | real x => rw [same, sameValue_self]
    | str s => simp [same]
    | arr items =>
      rw [Keyed, keyedItems_iff] at h
      rw [same]
      refine sameItems_self fun v hv => ih _ ?_ (h v hv) rfl
      have hsize := List.sizeOf_lt_of_mem hv
      simp only [arr.sizeOf_spec]
      omega
    | obj members =>
      rw [Keyed, keyedMembers_iff] at h
      have hmembers : sameMembers members members = true := by
        refine sameMembers_of_valueAt? (fun m hm => (valueAt?_eq_some_iff h.1).mpr hm)
          fun m hm => ih _ ?_ (h.2 m hm) rfl
        have hsize := List.sizeOf_lt_of_mem hm
        obtain ⟨k, v⟩ := m
        simp only [obj.sizeOf_spec, Prod.mk.sizeOf_spec] at hsize ⊢
        omega
      rw [same, hmembers, beq_self_eq_true, Bool.and_self]

end Json

/-! ## Looking options up -/

theorem OutputSettings.ofJson_toJson (o : OutputSettings) : ofJson o.toJson = .ok o := by
  obtain ⟨mode, validate⟩ := o
  cases mode <;> cases validate <;> rfl

namespace Settings

/-- The keys of the options that keep whatever value they are given. -/
def plainKeys : List String :=
  ["print_method_prefix", "stub_method_name", "add_generation_comment", "report_unsupported_types",
    "strict_parse"]

/-- The documented keys. -/
def optionKeys : List String :=
  "output" :: plainKeys

/-- The keys that are not options and still reach into the settings. -/
def reservedKeys : List String :=
  ["__class__", "__weakref__", "__dict__", "to_dict"]

/-- The members with documented keys. -/
def documented (members : List (CodeText × Json)) : List (CodeText × Json) :=
  members.filter fun m => m.1 ∈ optionKeys.map ofString

/-- No member has a reserved key. -/
def Unreserved (members : List (CodeText × Json)) : Prop :=
  ∀ m ∈ members, m.1 ∉ reservedKeys.map ofString

instance (members : List (CodeText × Json)) : Decidable (Unreserved members) :=
  inferInstanceAs (Decidable (∀ m ∈ members, m.1 ∉ reservedKeys.map ofString))

/-- Settings with the options that an object has, and the given ones for the rest. -/
def lookUp (s : Settings) (members : List (CodeText × Json)) : Except Fault Settings := do
  let output ← (Json.member? "output" members).elim (.ok s.output) fun value =>
    (OutputSettings.ofJson value).map .options
  return {
    methodPrefix := (Json.member? "print_method_prefix" members).getD s.methodPrefix
    stubName := (Json.member? "stub_method_name" members).getD s.stubName
    comment := (Json.member? "add_generation_comment" members).getD s.comment
    reportNested := (Json.member? "report_unsupported_types" members).getD s.reportNested
    strict := (Json.member? "strict_parse" members).getD s.strict
    output := output
    isSealed := s.isSealed }

section

variable {s : Settings} {name : String} {k : CodeText} {v : Json}
  {members others : List (CodeText × Json)}

theorem put_ignored (h : name ∉ "to_dict" :: plainKeys) : s.put name v = s := by
  unfold put
  split
  · exact absurd (by decide) h
  · exact absurd (by decide) h
  · exact absurd (by decide) h
  · exact absurd (by decide) h
  · exact absurd (by decide) h
  · exact absurd (by decide) h
  · rfl

theorem apply_plain (h : name ∈ plainKeys) : s.apply (ofString name, v) = .ok (s.put name v) := by
  simp only [plainKeys, List.mem_cons, List.not_mem_nil, or_false] at h
  rcases h with rfl | rfl | rfl | rfl | rfl <;> rfl

theorem apply_output : s.apply (ofString "output", v) =
    (OutputSettings.ofJson v).map fun o => { s with output := .options o } :=
  rfl

/-- A member with any other key changes nothing. -/
theorem apply_ignored (hd : k ∉ optionKeys.map ofString) (hr : k ∉ reservedKeys.map ofString) :
    s.apply (k, v) = .ok s := by
  have hput : ∀ name, k.string? = some name → s.put name v = s := by
    intro name hk
    obtain rfl := Text.CodeText.string?_eq_some.mp hk
    refine put_ignored fun hm => ?_
    rcases List.mem_cons.mp hm with rfl | hm
    · exact hr (by decide)
    · exact hd (List.mem_map_of_mem (List.mem_cons_of_mem _ hm))
  have hne : ∀ name ∈ optionKeys ++ reservedKeys, k.string? ≠ some name := by
    intro name hm hk
    obtain rfl := Text.CodeText.string?_eq_some.mp hk
    rcases List.mem_append.mp hm with hm | hm
    · exact hd (List.mem_map_of_mem hm)
    · exact hr (List.mem_map_of_mem hm)
  unfold apply
  dsimp only
  split
  · exact absurd ‹_› (hne _ (by decide))
  · exact absurd ‹_› (hne _ (by decide))
  · exact absurd ‹_› (hne _ (by decide))
  · exact absurd ‹_› (hne _ (by decide))
  · rw [hput _ ‹_›]
  · rfl

/-- One step of reading: what a member sets is what looking it up first would find. -/
theorem lookUp_cons (hfresh : k ∉ members.map Prod.fst) (hr : k ∉ reservedKeys.map ofString) :
    (s.apply (k, v) >>= fun next => next.lookUp members) = s.lookUp ((k, v) :: members) := by
  by_cases hd : k ∈ optionKeys.map ofString
  · obtain ⟨name, hname, rfl⟩ := List.mem_map.mp hd
    have hnone : Json.member? name members = none := Json.valueAt?_eq_none hfresh
    rcases List.mem_cons.mp hname with rfl | hplain
    · rw [apply_output]
      simp only [lookUp, Json.member?_cons, Text.CodeText.ofString_eq_iff, hnone, String.reduceEq,
        if_true, if_false, Option.elim_some, Option.elim_none]
      cases OutputSettings.ofJson v <;> rfl
    · rw [apply_plain hplain, except_ok_bind]
      simp only [plainKeys, List.mem_cons, List.not_mem_nil, or_false] at hplain
      rcases hplain with rfl | rfl | rfl | rfl | rfl <;>
        simp [lookUp, put, Json.member?_cons, Text.CodeText.ofString_eq_iff, hnone]
  · have hother : ∀ key ∈ optionKeys,
        Json.member? key ((k, v) :: members) = Json.member? key members := by
      intro key hkey
      rw [Json.member?_cons, if_neg]
      rintro rfl
      exact hd (List.mem_map_of_mem hkey)
    rw [apply_ignored hd hr, except_ok_bind, lookUp, lookUp]
    rw [hother "output" (by decide), hother "print_method_prefix" (by decide),
      hother "stub_method_name" (by decide), hother "add_generation_comment" (by decide),
      hother "report_unsupported_types" (by decide), hother "strict_parse" (by decide)]

/-- Reading an object without reserved keys looks up its options. -/
theorem foldlM_apply (hkeys : Json.DistinctKeys members) (hr : Unreserved members) :
    members.foldlM apply s = s.lookUp members := by
  induction members generalizing s with
  | nil => rfl
  | cons m rest ih =>
    obtain ⟨hfresh, hrest⟩ := List.nodup_cons.mp hkeys
    obtain ⟨hm, hr⟩ := List.forall_mem_cons.mp hr
    rw [List.foldlM_cons, ← lookUp_cons hfresh hm]
    exact congrArg (s.apply m >>= ·) (funext fun next => ih hrest hr)

theorem lookUp_congr
    (h : ∀ key ∈ optionKeys, Json.member? key members = Json.member? key others) :
    s.lookUp members = s.lookUp others := by
  rw [lookUp, lookUp, h "output" (by decide), h "print_method_prefix" (by decide),
    h "stub_method_name" (by decide), h "add_generation_comment" (by decide),
    h "report_unsupported_types" (by decide), h "strict_parse" (by decide)]

theorem mem_documented {key : String} (hkey : key ∈ optionKeys) :
    (ofString key, v) ∈ documented members ↔ (ofString key, v) ∈ members := by
  simp only [documented, List.mem_filter, decide_eq_true_eq]
  exact and_iff_left (List.mem_map_of_mem hkey)

/-- **Two objects with the same documented members are read alike,** whatever their order and
whatever else they have, if they have no reserved keys. -/
theorem ofJson_congr (hkeys : Json.DistinctKeys members) (hr : Unreserved members)
    (hkeys' : Json.DistinctKeys others) (hr' : Unreserved others)
    (h : (documented others).Perm (documented members)) :
    ofJson (.obj others) = ofJson (.obj members) := by
  change others.foldlM apply default = members.foldlM apply default
  rw [foldlM_apply hkeys hr, foldlM_apply hkeys' hr']
  refine lookUp_congr fun key hkey => Json.member?_congr hkeys' hkeys fun v => ?_
  exact (mem_documented hkey).symm.trans (h.mem_iff.trans (mem_documented hkey))

theorem documented_documented : documented (documented members) = documented members := by
  rw [documented, documented, List.filter_filter]
  simp only [Bool.and_self]

theorem Unreserved.documented (h : Unreserved members) : Unreserved (documented members) :=
  fun m hm => h m (List.mem_filter.mp hm).1

theorem distinctKeys_documented (h : Json.DistinctKeys members) :
    Json.DistinctKeys (documented members) :=
  h.sublist (List.filter_sublist.map _)

/-! ## Reserved keys -/

/-- What an object is read and written as. -/
def load (members : List (CodeText × Json)) : Except Fault Json :=
  ofJson (.obj members) >>= toJson

/-- A key that never matters: a member with it can be left out. -/
def Harmless (key : CodeText) : Prop :=
  ∀ before after value, load (before ++ (key, value) :: after) = load (before ++ after)

/-- Of the keys that are not documented, exactly the reserved ones matter. -/
theorem harmless_iff (hd : k ∉ optionKeys.map ofString) :
    Harmless k ↔ k ∉ reservedKeys.map ofString := by
  constructor
  · intro h hr
    obtain ⟨name, hname, rfl⟩ := List.mem_map.mp hr
    have halone := h [] [] .null
    simp only [reservedKeys, List.mem_cons, List.not_mem_nil, or_false] at hname
    rcases hname with rfl | rfl | rfl | rfl <;> cases halone
  · intro hr before after value
    have hskip : (before ++ (k, value) :: after).foldlM apply default =
        (before ++ after).foldlM apply default := by
      rw [List.foldlM_append, List.foldlM_append]
      refine congrArg (before.foldlM apply default >>= ·) (funext fun next => ?_)
      rw [List.foldlM_cons, apply_ignored hd hr, except_ok_bind]
    exact congrArg (· >>= toJson) hskip

/-! ## Reading what was written -/

/-- Settings that can be written are read back as they are. -/
theorem ofJson_toJson {o : OutputSettings} (ho : s.output = .options o)
    (hs : s.isSealed = false) : ∃ j, s.toJson = .ok j ∧ ofJson j = .ok s := by
  obtain ⟨start, stub, comment, report, strict, output, isSealed⟩ := s
  subst ho hs
  refine ⟨_, rfl, ?_⟩
  change [(ofString "print_method_prefix", start), (ofString "stub_method_name", stub),
    (ofString "add_generation_comment", comment), (ofString "report_unsupported_types", report),
    (ofString "strict_parse", strict), (ofString "output", o.toJson)].foldlM apply default = _
  simp only [List.foldlM_cons, List.foldlM_nil]
  rw [apply_plain (by decide), except_ok_bind, apply_plain (by decide), except_ok_bind,
    apply_plain (by decide), except_ok_bind, apply_plain (by decide), except_ok_bind,
    apply_plain (by decide), except_ok_bind, apply_output, OutputSettings.ofJson_toJson]
  rfl

/-- Written settings are those that are not sealed and have their output options. -/
theorem options_of_toJson {j : Json} (h : s.toJson = .ok j) :
    (∃ o, s.output = .options o) ∧ s.isSealed = false := by
  rw [toJson] at h
  split at h
  · cases h
  · rename_i hs
    obtain ⟨o, ho, -⟩ := except_bind_ok.mp h
    refine ⟨⟨o, ?_⟩, Bool.eq_false_iff.mpr hs⟩
    cases hout : s.output with
    | options p =>
      rw [hout] at ho
      cases ho
      rfl
    | value w =>
      rw [hout] at ho
      cases ho
    | absent =>
      rw [hout] at ho
      cases ho

/-- Reading and writing again changes nothing. -/
theorem load_idempotent {j written : Json} (h : (ofJson j >>= toJson) = .ok written) :
    (ofJson written >>= toJson) = .ok written := by
  obtain ⟨s, -, hs⟩ := except_bind_ok.mp h
  obtain ⟨⟨o, ho⟩, hsealed⟩ := options_of_toJson hs
  obtain ⟨j', hj', hread⟩ := ofJson_toJson ho hsealed
  obtain rfl := Except.ok.inj (hs.symm.trans hj')
  rw [hread, except_ok_bind, hs]

/-- The values of all options have distinct keys inside. -/
def Keyed (s : Settings) : Prop :=
  s.methodPrefix.Keyed ∧ s.stubName.Keyed ∧ s.comment.Keyed ∧ s.reportNested.Keyed ∧ s.strict.Keyed

theorem same_self {o : OutputSettings} (ho : s.output = .options o) (h : s.Keyed) :
    s.same s = true := by
  obtain ⟨hstart, hstub, hcomment, hreport, hstrict⟩ := h
  rw [same, ho, OutputPart.same, Json.same_self hstart, Json.same_self hstub,
    Json.same_self hcomment, Json.same_self hreport, Json.same_self hstrict, beq_self_eq_true]
  rfl

theorem roundTrips_of_options {o : OutputSettings} (ho : s.output = .options o)
    (hs : s.isSealed = false) (h : s.Keyed) : s.roundTrips = .ok true := by
  obtain ⟨j, hwrite, hread⟩ := ofJson_toJson ho hs
  rw [roundTrips, hwrite, except_ok_bind, hread, except_ok_bind, same_self ho h]
  rfl

end

/-- **Reading settings is a projection, reserved keys aside.** An object without reserved keys is
read as its documented members are, in any order and among any other members; of the keys that are
not documented, exactly the reserved ones matter. Settings with output options are read back from
what they are written as and count as equal to it, so reading and writing again changes nothing. -/
theorem settings_projection (members : List (CodeText × Json)) (key : CodeText) (s : Settings)
    (j : Json) :
    (Json.DistinctKeys members → Unreserved members →
      ofJson (.obj (documented members)) = ofJson (.obj members) ∧
      ∀ others, Json.DistinctKeys others → Unreserved others →
        (documented others).Perm (documented members) →
        ofJson (.obj others) = ofJson (.obj members)) ∧
    (key ∉ optionKeys.map ofString → (Harmless key ↔ key ∉ reservedKeys.map ofString)) ∧
    (∀ o : OutputSettings, s.output = .options o → s.isSealed = false →
      (∃ written, s.toJson = .ok written ∧ ofJson written = .ok s) ∧
        (s.Keyed → s.roundTrips = .ok true)) ∧
    ∀ written, (ofJson j >>= toJson) = .ok written →
      (ofJson written >>= toJson) = .ok written := by
  refine ⟨fun hkeys hr => ⟨?_, fun others hkeys' hr' h => ?_⟩, fun hd => harmless_iff hd,
    fun o ho hs => ?_, fun written h => load_idempotent h⟩
  · refine ofJson_congr hkeys hr (distinctKeys_documented hkeys) hr.documented ?_
    rw [documented_documented]
  · exact ofJson_congr hkeys hr hkeys' hr' h
  · exact ⟨ofJson_toJson ho hs, roundTrips_of_options ho hs⟩

end Settings

namespace Sample

/-- An object with an unknown key between two documented ones. -/
def customMembers : List (CodeText × Json) :=
  [(ofString "strict_parse", .bool true), (ofString "unknown_option", .int 1),
    (ofString "output", .ofMembers [("mode", .ofString "force")])]

/-- The documented members in the other order. -/
def reorderedMembers : List (CodeText × Json) :=
  [(ofString "output", .ofMembers [("mode", .ofString "force")]),
    (ofString "strict_parse", .bool true)]

end Sample

theorem Settings.projection_of_sample :
    (Json.DistinctKeys Sample.customMembers ∧ Unreserved Sample.customMembers ∧
      Json.DistinctKeys Sample.reorderedMembers ∧ Unreserved Sample.reorderedMembers) ∧
    ofJson (.obj Sample.reorderedMembers) = ofJson (.obj Sample.customMembers) ∧
    ∃ s, ofJson (.obj Sample.customMembers) = .ok s ∧ s.strict = .bool true ∧
      s.output = .options ⟨.force, true⟩ ∧ s.roundTrips = .ok true := by
  have hinputs : Json.DistinctKeys Sample.customMembers ∧ Unreserved Sample.customMembers ∧
      Json.DistinctKeys Sample.reorderedMembers ∧ Unreserved Sample.reorderedMembers := by
    decide
  obtain ⟨hkeys, hr, hkeys', hr'⟩ := hinputs
  have hmove : (documented Sample.reorderedMembers).Perm (documented Sample.customMembers) := by
    simp [documented, Sample.reorderedMembers, Sample.customMembers, optionKeys, plainKeys,
      Text.CodeText.ofString_eq_iff, List.Perm.swap]
  have hsettings : ofJson (.obj Sample.customMembers) =
      .ok { default with strict := .bool true, output := .options ⟨.force, true⟩ } :=
    rfl
  obtain ⟨hread, -, hwritten, -⟩ := settings_projection Sample.customMembers []
    { default with strict := .bool true, output := .options ⟨.force, true⟩ } .null
  refine ⟨⟨hkeys, hr, hkeys', hr'⟩, (hread hkeys hr).2 _ hkeys' hr' hmove, _, hsettings, rfl, rfl,
    ?_⟩
  refine (hwritten ⟨.force, true⟩ rfl rfl).2 ?_
  simp [Keyed, Json.Keyed, default, Json.ofString]

namespace Settings

/-- Each reserved key changes what an object is read or written as, although it is no documented
key. -/
theorem reserved_keys_matter :
    (∀ key ∈ reservedKeys, documented [(ofString key, .int 1)] = []) ∧
    (∃ j, load [] = .ok j) ∧
    load [(ofString "to_dict", .int 1)] = .error .settingsNotWritable ∧
    load [(ofString "__class__", .int 1)] = .error (.reservedKeyType "__class__") ∧
    load [(ofString "__weakref__", .int 1)] = .error (.reservedKeyFixed "__weakref__") ∧
    load [(ofString "__dict__", .obj [])] = .error .outputLost := by
  refine ⟨?_, ⟨_, rfl⟩, rfl, rfl, rfl, rfl⟩
  intro key hkey
  simp only [reservedKeys, List.mem_cons, List.not_mem_nil, or_false] at hkey
  rcases hkey with rfl | rfl | rfl | rfl <;> rfl

end Settings

end PrintGen
