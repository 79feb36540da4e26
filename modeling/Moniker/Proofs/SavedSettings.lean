/-
# Settings saved and loaded again

Every setting but three is saved under its key, and what the file has under a key comes before
the default.  A log file, its size and its backups are left out where they are empty or zero,
and what is left out is taken from the defaults again: that changes nothing for the file, whose
default is empty, but an empty size becomes the usual size and no backups become the usual
number of backups (`Settings.reloaded`).  Whole numbers pass through a double on the way.

The fields of a record are found by their keys as long as no two of them are alike, in lower
case too (`SettingSources.field?_lowered`).
-/

import Moniker.Command.Execute
import Moniker.Proofs.Bytes
import Moniker.Proofs.Doubles
import Moniker.Proofs.Json
import Moniker.Proofs.Running.Sessions
import Mathlib.Data.List.Nodup

namespace Moniker

variable {fields inner : List (String × Value)} {key name : String} {v : Value}
  {s : Settings} {src : SettingSources} {k : SettingKey}

/-! ### Fields of a record -/

/-- In a table whose keys are apart an entry is found under its key. -/
theorem find?_of_mem {α β : Type} [BEq α] [LawfulBEq α] {entries : List (α × β)} {a : α} {b : β}
    (hnodup : (entries.map Prod.fst).Nodup) (h : (a, b) ∈ entries) :
    entries.find? (fun e => e.1 == a) = some (a, b) := by
  have hsome : (entries.find? fun e => e.1 == a).isSome := by
    rw [List.find?_isSome]
    exact ⟨(a, b), h, BEq.rfl⟩
  obtain ⟨e, he⟩ := Option.isSome_iff_exists.mp hsome
  have hfound := List.find?_some he
  have hkey : e.1 = a := beq_iff_eq.mp hfound
  rw [he, List.inj_on_of_nodup_map hnodup (List.mem_of_find?_eq_some he) h hkey]

theorem Value.field?_of_mem (hnodup : (fields.map Prod.fst).Nodup) (h : (key, v) ∈ fields) :
    (Value.record fields).field? key = some v := by
  have hreverse : (fields.reverse.map Prod.fst).Nodup := by
    rwa [List.map_reverse, List.nodup_reverse]
  rw [field?, find?_of_mem hreverse (List.mem_reverse.mpr h), Option.map_some]

theorem Value.field?_eq_none (h : ∀ f ∈ fields, f.1 ≠ key) :
    (Value.record fields).field? key = none := by
  rw [field?, Option.map_eq_none_iff, List.find?_eq_none]
  exact fun f hf => mt beq_iff_eq.mp (h f (List.mem_reverse.mp hf))

namespace SettingSources

/-- A value with the keys of its fields in lower case. -/
def loweredValue : Value → Value
  | .record inner => .record (inner.map fun f => (Text.lower f.1, f.2))
  | v => v

theorem lowered_eq (fields : List (String × Value)) :
    lowered fields = fields.map fun f => (Text.lower f.1, loweredValue f.2) := rfl

/-- **Lower case loses no field** if no two keys are alike in it. -/
theorem field?_lowered (hnodup : (fields.map fun f => Text.lower f.1).Nodup)
    (h : (key, v) ∈ fields) :
    (Value.record (lowered fields)).field? (Text.lower key) = some (loweredValue v) := by
  rw [lowered_eq]
  refine Value.field?_of_mem ?_ (List.mem_map.mpr ⟨(key, v), h, rfl⟩)
  rwa [List.map_map]

theorem field?_lowered_eq_none (h : ∀ f ∈ fields, Text.lower f.1 ≠ Text.lower key) :
    (Value.record (lowered fields)).field? (Text.lower key) = none := by
  refine Value.field?_eq_none fun f hf => ?_
  obtain ⟨g, hg, rfl⟩ := List.mem_map.mp hf
  exact h g hg

end SettingSources

namespace Settings

/-! ### What is saved -/

/-- How logs are written, as fields. -/
def savedLogging (s : Settings) : List (String × Value) :=
  [("format", .str s.logging.format), ("level", .str s.logging.level)]
    ++ Value.textField "file" s.logging.file ++ Value.textField "maxSize" s.logging.maxSize
    ++ (if s.logging.maxBackups = 0 then [] else [("maxBackups", .int s.logging.maxBackups)])

/-- The fields of the file. -/
def savedFields (s : Settings) : List (String × Value) :=
  [("version", .int s.version), ("reservedNames", .ofTexts s.reservedNames),
    ("externalModules", .ofTexts s.externalModules), ("effectRoots", .bool s.effectRoots),
    ("privateMembersInternal", .bool s.privateMembersInternal),
    ("hardPrivate", .bool s.hardPrivate), ("ignoreDirs", .ofTexts s.ignoreDirs),
    ("bundle", .record [("strict", .bool s.strictBundles)]),
    ("locator", .record [("backend", .str s.backend), ("scipIndexPath", .str s.indexPath)]),
    ("history", .record [("enabled", .bool s.historyEnabled), ("keep", .int s.historyKeep)]),
    ("logging", .record s.savedLogging)]

theorem toValue_eq (s : Settings) : s.toValue = .record s.savedFields := rfl

/-- The settings that are left out of the file. -/
def leftOut (s : Settings) : List SettingKey :=
  (if s.logging.file = "" then [⟨"logging", "file"⟩] else [])
    ++ (if s.logging.maxSize = "" then [⟨"logging", "maxSize"⟩] else [])
    ++ (if s.logging.maxBackups = 0 then [⟨"logging", "maxBackups"⟩] else [])

theorem whole_ofTexts (xs : List String) : Json.Whole (.ofTexts xs) := by
  refine .list fun v hv => ?_
  obtain ⟨x, -, rfl⟩ := List.mem_map.mp hv
  exact .str x

theorem mem_savedLogging {f : String × Value} : f ∈ s.savedLogging ↔
    f = ("format", .str s.logging.format) ∨ f = ("level", .str s.logging.level) ∨
      f = ("file", .str s.logging.file) ∧ s.logging.file ≠ "" ∨
      f = ("maxSize", .str s.logging.maxSize) ∧ s.logging.maxSize ≠ "" ∨
      f = ("maxBackups", .int s.logging.maxBackups) ∧ s.logging.maxBackups ≠ 0 := by
  simp only [savedLogging, Value.textField, List.mem_append, List.mem_ite_nil_left, List.mem_cons,
    List.not_mem_nil, or_false, or_assoc, and_comm]

theorem whole_savedLogging (s : Settings) : ∀ f ∈ s.savedLogging, Json.Whole f.2 := by
  intro f hf
  rcases mem_savedLogging.mp hf with rfl | rfl | ⟨rfl, -⟩ | ⟨rfl, -⟩ | ⟨rfl, -⟩
  · exact .str _
  · exact .str _
  · exact .str _
  · exact .str _
  · exact .int _

theorem whole_toValue (s : Settings) : Json.Whole s.toValue := by
  rw [toValue_eq]
  refine .record ?_
  unfold savedFields
  simp only [List.forall_mem_cons]
  exact ⟨.int _, whole_ofTexts _, whole_ofTexts _, .bool _, .bool _, .bool _, whole_ofTexts _,
    .record (List.forall_mem_singleton.mpr (.bool _)),
    .record (List.forall_mem_cons.mpr ⟨.str _, List.forall_mem_singleton.mpr (.str _)⟩),
    .record (List.forall_mem_cons.mpr ⟨.bool _, List.forall_mem_singleton.mpr (.int _)⟩),
    .record s.whole_savedLogging, nofun⟩

/-- **What is saved can be read.** -/
theorem parse?_save (s : Settings) : Json.parse? s.save = some (.record s.savedFields) :=
  Json.parse?_indented s.whole_toValue

/-- What the settings are read from once they were saved. -/
def savedSources (s : Settings) (environment : List (String × String)) : SettingSources :=
  { file := SettingSources.lowered s.savedFields, environment := environment }

theorem ofText_save (s : Settings) (environment : List (String × String)) :
    SettingSources.ofText s.save environment = .ok (s.savedSources environment) := by
  rw [SettingSources.ofText, parse?_save]
  rfl

/-! ### What the file has under a key -/

/-- The names of the fields of the file. -/
def savedNames : List String :=
  ["version", "reservedNames", "externalModules", "effectRoots", "privateMembersInternal",
    "hardPrivate", "ignoreDirs", "bundle", "locator", "history", "logging"]

theorem map_fst_savedFields (s : Settings) : s.savedFields.map Prod.fst = savedNames := rfl

theorem mem_savedNames {f : String × Value} (h : f ∈ s.savedFields) : f.1 ∈ savedNames :=
  s.map_fst_savedFields ▸ List.mem_map_of_mem h

theorem nodup_savedFields (s : Settings) : (s.savedFields.map fun f => Text.lower f.1).Nodup := by
  change (savedNames.map Text.lower).Nodup
  decide

/-- The names of the fields that say how logs are written. -/
def loggingNames : List String := ["format", "level", "file", "maxSize", "maxBackups"]

theorem sublist_savedLogging (s : Settings) :
    (s.savedLogging.map Prod.fst).Sublist loggingNames := by
  have htext (key x : String) : ((Value.textField key x).map Prod.fst).Sublist [key] := by
    unfold Value.textField
    split
    · exact List.nil_sublist _
    · exact List.Sublist.refl _
  have hbackups : ((if s.logging.maxBackups = 0 then [] else
      [("maxBackups", Value.int s.logging.maxBackups)]).map Prod.fst).Sublist ["maxBackups"] := by
    split
    · exact List.nil_sublist _
    · exact List.Sublist.refl _
  have hnames : loggingNames = ["format", "level"] ++ ["file"] ++ ["maxSize"] ++ ["maxBackups"] :=
    rfl
  rw [hnames, savedLogging, List.map_append, List.map_append, List.map_append]
  exact (((List.Sublist.refl _).append (htext _ _)).append (htext _ _)).append hbackups

theorem mem_leftOut : k ∈ s.leftOut ↔
    k = ⟨"logging", "file"⟩ ∧ s.logging.file = "" ∨
      k = ⟨"logging", "maxSize"⟩ ∧ s.logging.maxSize = "" ∨
      k = ⟨"logging", "maxBackups"⟩ ∧ s.logging.maxBackups = 0 := by
  simp only [leftOut, List.mem_append, List.mem_ite_nil_right, List.mem_singleton, or_assoc,
    and_comm]

theorem group_of_mem_leftOut (h : k ∈ s.leftOut) : k.group = "logging" := by
  rcases mem_leftOut.mp h with ⟨rfl, -⟩ | ⟨rfl, -⟩ | ⟨rfl, -⟩
  · rfl
  · rfl
  · rfl

theorem nodup_savedLogging (s : Settings) :
    (s.savedLogging.map fun f => Text.lower f.1).Nodup := by
  have hsub := s.sublist_savedLogging.map Text.lower
  rw [List.map_map] at hsub
  exact hsub.nodup (by decide)

/-- The members of a group are known apart in lower case. -/
theorem nodup_of_mem_savedFields (h : (key, .record inner) ∈ s.savedFields) :
    (inner.map fun f => Text.lower f.1).Nodup := by
  simp only [savedFields, Value.ofTexts, List.mem_cons, Prod.mk.injEq, reduceCtorEq, and_false,
    false_or, Value.record.injEq, List.not_mem_nil, or_false] at h
  rcases h with ⟨-, rfl⟩ | ⟨-, rfl⟩ | ⟨-, rfl⟩ | ⟨-, rfl⟩
  · simp
  · simp only [List.map_cons, List.map_nil]
    decide
  · simp only [List.map_cons, List.map_nil]
    decide
  · exact s.nodup_savedLogging

/-- A field of the file as settings: a record is a group of them. -/
def keyed : String × Value → List (SettingKey × Value)
  | (group, .record inner) => inner.map fun f => (⟨group, f.1⟩, f.2)
  | (name, v) => [(⟨"", name⟩, v)]

/-- **Every setting is saved under its key,** except for those that are left out. -/
theorem flatMap_savedFields (s : Settings) :
    s.savedFields.flatMap keyed = s.pairs.filter fun p => p.1 ∉ s.leftOut := by
  -- Which fields there are hangs on these three, so both sides are told out for each.
  by_cases hfile : s.logging.file = "" <;> by_cases hsize : s.logging.maxSize = "" <;>
    by_cases hbackups : s.logging.maxBackups = 0 <;>
    simp [keyed, savedFields, savedLogging, Value.ofTexts, Value.textField, pairs, mem_leftOut,
      hfile, hsize, hbackups]

theorem map_fst_pairs (s : Settings) : s.pairs.map Prod.fst = SettingKey.all := rfl

theorem mem_all_of_mem_pairs (h : (k, v) ∈ s.pairs) : k ∈ SettingKey.all :=
  s.map_fst_pairs ▸ List.mem_map_of_mem h

/-- A setting that is not left out is a field of the file or of one of its records. -/
theorem saved_of_mem_pairs (h : (k, v) ∈ s.pairs) (hkept : k ∉ s.leftOut) :
    k.group = "" ∧ (k.name, v) ∈ s.savedFields ∧ SettingSources.loweredValue v = v ∨
      k.group ≠ "" ∧ ∃ inner, (k.group, .record inner) ∈ s.savedFields ∧ (k.name, v) ∈ inner := by
  have hmem : (k, v) ∈ s.savedFields.flatMap keyed := by
    rw [flatMap_savedFields, List.mem_filter]
    exact ⟨h, decide_eq_true hkept⟩
  obtain ⟨⟨key, w⟩, hsaved, hkeyed⟩ := List.mem_flatMap.mp hmem
  unfold keyed at hkeyed
  split at hkeyed
  · next group inner hpair =>
    obtain ⟨rfl, rfl⟩ := Prod.mk.inj hpair
    obtain ⟨f, hf, heq⟩ := List.mem_map.mp hkeyed
    obtain ⟨rfl, rfl⟩ := Prod.mk.inj heq
    have hgroup : key ≠ "" := ne_of_mem_of_not_mem (mem_savedNames hsaved) (by decide)
    exact .inr ⟨hgroup, inner, hsaved, hf⟩
  · next name w' hplain hpair =>
    obtain ⟨rfl, rfl⟩ := Prod.mk.inj hpair
    obtain ⟨rfl, rfl⟩ := Prod.mk.inj (List.mem_singleton.mp hkeyed)
    refine .inl ⟨rfl, hsaved, ?_⟩
    cases v with
    | record inner => exact absurd rfl (hplain inner)
    | _ => rfl

theorem default?_of_mem_pairs (h : (k, v) ∈ defaults.pairs) : default? k = some v := by
  rw [default?, find?_of_mem (by decide) h, Option.map_some]

theorem ne_null_of_mem_pairs (h : (k, v) ∈ s.pairs) : v ≠ .null := by
  rintro rfl
  simp [pairs, Value.ofTexts] at h

/-- No field is called by the whole key of a setting in a group. -/
theorem field?_text (environment : List (String × String)) (hk : k ∈ SettingKey.all)
    (hgroup : k.group ≠ "") : (s.savedSources environment).field? k.text = none := by
  have happart : ∀ k ∈ SettingKey.all, k.group ≠ "" →
      ∀ name ∈ savedNames, Text.lower name ≠ Text.lower k.text := by decide
  exact SettingSources.field?_lowered_eq_none fun f hf => happart k hk hgroup _ (mem_savedNames hf)

theorem present_of_ne_null (h : v ≠ .null) : SettingSources.present (some v) = some v := by
  cases v with
  | null => exact absurd rfl h
  | _ => rfl

theorem field?_group (environment : List (String × String))
    (h : (key, .record inner) ∈ s.savedFields) :
    (s.savedSources environment).field? key =
      some (.record (inner.map fun f => (Text.lower f.1, f.2))) :=
  SettingSources.field?_lowered s.nodup_savedFields h

/-- **The file has every setting,** except for those that are left out. -/
theorem fileValue?_kept (environment : List (String × String)) (h : (k, v) ∈ s.pairs)
    (hkept : k ∉ s.leftOut) : (s.savedSources environment).fileValue? k = some v := by
  have hpresent := present_of_ne_null (ne_null_of_mem_pairs h)
  rw [SettingSources.fileValue?]
  rcases saved_of_mem_pairs h hkept with ⟨hgroup, hsaved, hplain⟩ | ⟨hgroup, inner, hsaved, hmem⟩
  · have hfield := SettingSources.field?_lowered s.nodup_savedFields hsaved
    rw [if_pos hgroup]
    exact (congrArg SettingSources.present (hfield.trans (congrArg some hplain))).trans hpresent
  · have hnodup : ((inner.map fun f => (Text.lower f.1, f.2)).map Prod.fst).Nodup := by
      rw [List.map_map]
      exact nodup_of_mem_savedFields hsaved
    have hfield := Value.field?_of_mem hnodup (List.mem_map_of_mem hmem)
    rw [if_neg hgroup, field?_text environment (mem_all_of_mem_pairs h) hgroup,
      field?_group environment hsaved]
    exact (congrArg SettingSources.present hfield).trans hpresent

/-- What is left out is not there under another spelling either. -/
theorem lower_ne_of_mem_leftOut (h : k ∈ s.leftOut) {f : String × Value}
    (hf : f ∈ s.savedLogging) : Text.lower f.1 ≠ Text.lower k.name := by
  have happart : ∀ a ∈ loggingNames, ∀ b ∈ loggingNames, a ≠ b → Text.lower a ≠ Text.lower b := by
    decide
  have hname : f.1 ∈ loggingNames := s.sublist_savedLogging.subset (List.mem_map_of_mem hf)
  have hsaved := mem_savedLogging.mp hf
  rcases mem_leftOut.mp h with ⟨rfl, hempty⟩ | ⟨rfl, hempty⟩ | ⟨rfl, hempty⟩
  · exact happart _ hname _ (by decide) (by grind)
  · exact happart _ hname _ (by decide) (by grind)
  · exact happart _ hname _ (by decide) (by grind)

theorem fileValue?_leftOut (environment : List (String × String)) (h : k ∈ s.leftOut) :
    (s.savedSources environment).fileValue? k = none := by
  have hlogging : ("logging", .record s.savedLogging) ∈ s.savedFields := by simp [savedFields]
  have hfield : ∀ f ∈ s.savedLogging.map fun f => (Text.lower f.1, f.2),
      f.1 ≠ Text.lower k.name := by
    intro f hf
    obtain ⟨g, hg, rfl⟩ := List.mem_map.mp hf
    exact lower_ne_of_mem_leftOut h hg
  have hall : k ∈ SettingKey.all := by
    rcases mem_leftOut.mp h with ⟨rfl, -⟩ | ⟨rfl, -⟩ | ⟨rfl, -⟩ <;> decide
  have hgroup := group_of_mem_leftOut h
  rw [SettingSources.fileValue?, if_neg (by rw [hgroup]; decide),
    field?_text environment hall (by rw [hgroup]; decide), hgroup,
    field?_group environment hlogging]
  exact congrArg SettingSources.present (Value.field?_eq_none hfield)

/-! ### What is loaded -/

/-- Does no environment variable say anything about a setting or about a group of them? -/
def Unoverridden (environment : List (String × String)) : Prop :=
  ∀ k ∈ SettingKey.all, ∀ x ∈ environment,
    x.1 = k.override ∨ k.group ≠ "" ∧ x.1 = SettingKey.variableOf k.group → x.2 = ""

theorem environment?_eq_none (h : ∀ x ∈ src.environment, x.1 = name → x.2 = "") :
    src.environment? name = none := by
  rw [SettingSources.environment?, Option.filter_eq_none_iff]
  intro value hvalue
  obtain ⟨x, hfound, rfl⟩ := Option.map_eq_some_iff.mp hvalue
  have hname := List.find?_some hfound
  simpa using h x (List.mem_of_find?_eq_some hfound) (beq_iff_eq.mp hname)

/-- Without overrides the file comes first, and then the defaults. -/
theorem chosen?_of_unoverridden (hfree : Unoverridden src.environment)
    (hk : k ∈ SettingKey.all) : chosen? src k = (src.fileValue? k).orElse fun _ => default? k := by
  have hown : src.environment? k.override = none :=
    environment?_eq_none fun x hx heq => hfree k hk x hx (.inl heq)
  have hgroup : ¬ (k.group ≠ "" && (src.environment? (SettingKey.variableOf k.group)).isSome) := by
    rw [Bool.and_eq_true, not_and, decide_eq_true_eq]
    intro hne
    rw [environment?_eq_none fun x hx heq => hfree k hk x hx (.inr ⟨hne, heq⟩)]
    decide
  rw [chosen?, hown]
  exact if_neg hgroup

/-- The file has a record in the place of each group. -/
theorem effective_savedSources (environment : List (String × String)) (hk : k ∈ SettingKey.all) :
    effective (s.savedSources environment) k = .ok (chosen? (s.savedSources environment) k) := by
  rw [effective]
  split
  · rfl
  · next hgroup =>
    have hrecord : ∃ inner, (k.group, .record inner) ∈ s.savedFields := by
      by_cases hout : k ∈ s.leftOut
      · exact ⟨s.savedLogging, by simp [group_of_mem_leftOut hout, savedFields]⟩
      · obtain ⟨⟨k, v⟩, hpair, rfl⟩ := List.mem_map.mp (s.map_fst_pairs ▸ hk)
        rcases saved_of_mem_pairs hpair hout with ⟨htop, -⟩ | ⟨-, inner, hsaved, -⟩
        · exact absurd htop hgroup
        · exact ⟨inner, hsaved⟩
    obtain ⟨inner, hsaved⟩ := hrecord
    rw [field?_group environment hsaved]

/-- The settings, with the usual size and number of backups in the place of none. -/
def completed (s : Settings) : Settings :=
  { s with logging :=
    { s.logging with
      maxSize := if s.logging.maxSize = "" then defaults.logging.maxSize else s.logging.maxSize
      maxBackups := if s.logging.maxBackups = 0 then defaults.logging.maxBackups
        else s.logging.maxBackups } }

theorem pairs_completed (s : Settings) : s.completed.pairs = s.pairs.take 15 ++
    [((⟨"logging", "maxSize"⟩ : SettingKey), Value.str s.completed.logging.maxSize),
      ((⟨"logging", "maxBackups"⟩ : SettingKey), Value.int s.completed.logging.maxBackups)] := rfl

/-- A setting of the completed ones was saved or is as usual. -/
theorem mem_pairs_of_completed (h : (k, v) ∈ s.completed.pairs) :
    if k ∈ s.leftOut then (k, v) ∈ defaults.pairs else (k, v) ∈ s.pairs := by
  split
  · next hout =>
    rcases mem_leftOut.mp hout with ⟨rfl, hempty⟩ | ⟨rfl, hempty⟩ | ⟨rfl, hempty⟩
    · obtain rfl : v = .str "" := by simpa [pairs, completed, hempty] using h
      simp [pairs, defaults]
    · obtain rfl : v = .str defaults.logging.maxSize := by
        simpa [pairs, completed, hempty] using h
      simp [pairs]
    · obtain rfl : v = .int defaults.logging.maxBackups := by
        simpa [pairs, completed, hempty] using h
      simp [pairs]
  · next hkept =>
    rw [pairs_completed] at h
    rcases List.mem_append.mp h with h | h
    · exact List.mem_of_mem_take h
    · simp only [List.mem_cons, Prod.mk.injEq, List.not_mem_nil, or_false] at h
      rcases h with ⟨rfl, rfl⟩ | ⟨rfl, rfl⟩
      · have hsize : s.logging.maxSize ≠ "" := fun hempty =>
          hkept (mem_leftOut.mpr (.inr (.inl ⟨rfl, hempty⟩)))
        simp [pairs, completed, hsize]
      · have hbackups : s.logging.maxBackups ≠ 0 := fun hzero =>
          hkept (mem_leftOut.mpr (.inr (.inr ⟨rfl, hzero⟩)))
        simp [pairs, completed, hbackups]

/-- **What is loaded where something was left out** is the usual value, otherwise what was
saved. -/
theorem effective_of_mem_completed {environment : List (String × String)}
    (hfree : Unoverridden environment) (h : (k, v) ∈ s.completed.pairs) :
    effective (s.savedSources environment) k = .ok (some v) := by
  have hall := mem_all_of_mem_pairs h
  have hpair := mem_pairs_of_completed h
  rw [effective_savedSources environment hall, chosen?_of_unoverridden hfree hall]
  split at hpair
  · next hout =>
    rw [fileValue?_leftOut environment hout, Option.orElse_none, default?_of_mem_pairs hpair]
  · next hkept => rw [fileValue?_kept environment hpair hkept, Option.orElse_some]

/-- The settings after their whole numbers were doubles. -/
def held (s : Settings) : Settings :=
  { s with
    version := Numeral.held s.version
    historyKeep := Numeral.held s.historyKeep
    logging := { s.logging with maxBackups := Numeral.held s.logging.maxBackups } }

theorem textsOf?_ofTexts (xs : List String) : textsOf? (.ofTexts xs) = some xs := by
  rw [Value.ofTexts, textsOf?]
  induction xs with
  | nil => rfl
  | cons x xs ih =>
    rw [List.map_cons, List.mapM_cons, ih]
    rfl

/-- **Settings are read** if each of their values is the one that counts. -/
theorem ofSources_eq_ok (h : ∀ p ∈ s.pairs, effective src p.1 = .ok (some p.2)) :
    ofSources src = .ok s.held := by
  simp only [pairs, List.forall_mem_cons] at h
  obtain ⟨h1, h2, h3, h4, h5, h6, h7, h8, h9, h10, h11, h12, h13, h14, h15, h16, h17, -⟩ := h
  simp only [ofSources, read, h1, h2, h3, h4, h5, h6, h7, h8, h9, h10, h11, h12, h13, h14, h15, h16,
    h17, bind, Except.bind, textsOf?_ofTexts]
  rfl

/-- The settings that are loaded after some were saved. -/
def reloaded (s : Settings) : Settings := s.completed.held

theorem load_save (s : Settings) {environment : List (String × String)}
    (hfree : Unoverridden environment) : load (some s.save) environment = .ok s.reloaded := by
  rw [load, ofText_save]
  exact ofSources_eq_ok fun p hp => effective_of_mem_completed hfree hp

/-- **What is loaded is what was saved** just when nothing but a log file was left out and
doubles hold the numbers. -/
theorem reloaded_eq_self_iff : s.reloaded = s ↔
    s.logging.maxSize ≠ "" ∧ s.logging.maxBackups ≠ 0 ∧
      ∀ n ∈ [s.version, s.historyKeep, s.logging.maxBackups], Numeral.Exact n := by
  obtain ⟨_, _, _, _, _, _, _, _, _, _, _, _, ⟨_, _, _, size, backups⟩⟩ := s
  have hsize : (if size = "" then defaults.logging.maxSize else size) = size ↔ size ≠ "" := by
    split
    · next hempty => exact iff_of_false (by rw [hempty]; decide) (fun hne => hne hempty)
    · next hne => exact iff_of_true rfl hne
  have hbackups : Numeral.held (if backups = 0 then defaults.logging.maxBackups else backups) =
      backups ↔ backups ≠ 0 ∧ Numeral.Exact backups := by
    split
    · next hzero => exact iff_of_false (by rw [hzero]; decide) (fun h => h.1 hzero)
    · next hne => rw [Numeral.held_eq_self_iff, and_iff_right hne]
  simp only [reloaded, completed, held, Settings.mk.injEq, LogSettings.mk.injEq, true_and,
    Numeral.held_eq_self_iff, hsize, hbackups, List.forall_mem_cons]
  constructor
  · rintro ⟨hversion, hkeep, hsize, hbackups, hexact⟩
    exact ⟨hsize, hbackups, hversion, hkeep, hexact, nofun⟩
  · rintro ⟨hsize, hbackups, hversion, hkeep, hexact, -⟩
    exact ⟨hversion, hkeep, hsize, hbackups, hexact⟩

end Settings

/-! ### Saving and loading -/

/-- What was put at a path is there. -/
theorem Disk.document?_put_self (d : Disk) (path : String) (doc : Document) :
    (d.put path doc).document? path = some doc := by
  unfold put
  dsimp only
  split
  · next hthere =>
    obtain ⟨e, he⟩ := Option.isSome_iff_exists.mp (Option.isSome_map ▸ hthere)
    have hfound := List.find?_some he
    have hsame : (fun e : String × Document => e.1 == path) ∘
        (fun e => if e.1 == path then (path, doc) else e) = fun e => e.1 == path := by
      funext e
      dsimp only [Function.comp]
      split
      · next heq => rw [heq, beq_self_eq_true]
      · rfl
    rw [document?, List.find?_map, hsame, he, Option.map_some, if_pos hfound, Option.map_some]
  · next hnone =>
    rw [document?, Option.isSome_map, Bool.not_eq_true, Option.isSome_eq_false_iff,
      Option.isNone_iff_eq_none] at hnone
    rw [document?, List.find?_append, hnone, Option.none_or]
    simp

namespace Project

/-- Saves the settings of the project at a root and loads them again. -/
def saveAndLoad (root : String) (s : Settings) : Session Settings := do
  let _ ← Task.create true (Settings.path root) s.save
  settingsAt root

theorem exec_create (path text : String) (around : Surroundings) (state : SessionState) :
    (Task.create true path text).exec around state = (.ok true, { state with world :=
      { state.world with disk := state.world.disk.put path (.plain (Text.encode text)) } }) := by
  have hdisk : Session.disk.exec around state = (.ok state.world.disk, state) := rfl
  rw [Task.create, Session.exec_bind, hdisk]
  dsimp only
  rw [Bool.not_true, Bool.and_false, if_neg Bool.false_ne_true]
  rfl

/-- The file that settings are saved in is the first that is looked for. -/
theorem findSome?_places (root : String) (d : Disk) (bytes : ByteArray) :
    (Settings.places root).findSome?
      (fun p => ((d.put (Settings.path root) (.plain bytes)).read p).toOption) = some bytes := by
  have hplaces : Settings.places root = Settings.path root :: (Settings.endings.tail.map fun e =>
      Path.join [Settings.stateDir root, "config" ++ e]) := rfl
  rw [hplaces, List.findSome?_cons, Disk.read, Disk.document?_put_self]
  rfl

theorem exec_saveAndLoad (root : String) (s : Settings) (around : Surroundings)
    (state : SessionState) (hfree : Settings.Unoverridden around.environment) :
    ((saveAndLoad root s).exec around state).1 = .ok s.reloaded := by
  have hload := Settings.load_save s hfree
  rw [saveAndLoad, Session.exec_bind, exec_create]
  dsimp only
  generalize hstate : ({ state with world := _ } : SessionState) = state'
  have hdisk : Session.disk.exec around state' = (.ok state'.world.disk, state') := rfl
  have hread : (read : Session Surroundings).exec around state' = (.ok around, state') := rfl
  have hbytes : (Settings.places root).findSome? (fun p => (state'.world.disk.read p).toOption) =
      some (Text.encode s.save) := hstate ▸ findSome?_places root state.world.disk _
  rw [settingsAt, Session.exec_bind, hdisk]
  dsimp only
  rw [Session.exec_bind, hread]
  dsimp only
  rw [hbytes, Option.map_some, Text.decode_encode, hload]
  rfl

/-- **Settings that were saved can be loaded,** whatever is in them.  They come back as they
were just when there are a size and backups for the log and doubles hold all numbers exactly;
where a size or backups are missing, the usual ones come back. -/
theorem reloads_saveAndLoad (root : String) (s : Settings) (around : Surroundings)
    (state : SessionState) (hfree : Settings.Unoverridden around.environment) :
    ((saveAndLoad root s).exec around state).1 = .ok s.reloaded ∧
      (s.reloaded = s ↔ s.logging.maxSize ≠ "" ∧ s.logging.maxBackups ≠ 0 ∧
        ∀ n ∈ [s.version, s.historyKeep, s.logging.maxBackups], Numeral.Exact n) :=
  ⟨exec_saveAndLoad root s around state hfree, Settings.reloaded_eq_self_iff⟩

/-- Valid settings of a log of any size without backups come back as the usual settings. -/
theorem reloads_saveAndLoad_noBackups :
    let s : Settings := { Settings.defaults with
      logging := { format := "human", level := "warn", maxSize := "", maxBackups := 0 } }
    let around : Surroundings := {
      cwd := "/", environment := [("HOME", "/root"), ("TSMANGLE_HISTORY_KEEP", "")]
      parse := fun _ _ => .error 0, runId := toString, time := fun _ => default }
    s.check = .ok () ∧ Settings.Unoverridden around.environment ∧
      ((saveAndLoad "/project" s).exec around { world := {} }).1 = .ok Settings.defaults ∧
      Settings.defaults ≠ s := by
  intro s around
  have hfree : Settings.Unoverridden around.environment := by
    unfold Settings.Unoverridden
    decide +kernel
  have husual : s.reloaded = Settings.defaults := by decide +kernel
  have hloaded := (reloads_saveAndLoad "/project" s around { world := {} } hfree).1
  rw [husual] at hloaded
  exact ⟨by decide +kernel, hfree, hloaded, by decide +kernel⟩

end Project
end Moniker
