import RuleLang.Proofs.Options.Values

/-!
Which settings are options. Nothing is, and so is a mapping that has no keys but those of the
options, an integer from 1 to 100 as its depth and a text that is not empty as its file name. Of
every other setting one fault is told: what is wrong with the whole goes before what is wrong with
the depth, and that before the file name. But nothing can be told where an integer with too many
digits would have to be shown (`ofSetting_outcome`).
-/
namespace RuleLang

namespace Options

open Setting

section Values

variable {v : Setting} {f : OptionsFault}

/-- The setting is a number that may be a depth. -/
inductive IsDepth : Setting → WholeNumber → Prop
  | number {n : Number} {z : Int} {whole : n.toInt?.isSome} (h : n.IsInteger z)
    (hleast : leastDepth ≤ z) (hgreatest : z ≤ greatestDepth) : IsDepth (.number n) ⟨n, whole⟩

/-- The setting is a text that may be a file name. -/
inductive IsFilename : Setting → String → Prop
  | text {s : String} (h : s ≠ "") : IsFilename (.text s) s

/-- What is wrong with a depth: it is no integer, or it is too small or too great a one. -/
inductive IsDepthFault (v : Setting) : OptionsFault → Prop
  | notInteger (h : ∀ n z, v = .number n → ¬n.IsInteger z) : IsDepthFault v (.depthNotInteger v)
  | tooSmall {n : Number} {z : Int} (hv : v = .number n) (h : n.IsInteger z)
    (hz : z < leastDepth) : IsDepthFault v (.depthTooSmall v)
  | tooGreat {n : Number} {z : Int} (hv : v = .number n) (h : n.IsInteger z)
    (hz : greatestDepth < z) : IsDepthFault v (.depthTooGreat v)

/-- What is wrong with a file name: it is no text, or an empty one. -/
inductive IsFilenameFault (v : Setting) : OptionsFault → Prop
  | notText (h : ∀ s, v ≠ .text s) : IsFilenameFault v (.filenameNotText v)
  | empty (hv : v = .text "") : IsFilenameFault v .filenameEmpty

theorem depthFaults_of_isInteger {n : Number} {z : Int} (h : n.IsInteger z) :
    depthFaults (.number n) =
      (if z < leastDepth then [.depthTooSmall (.number n)] else []) ++
        (if greatestDepth < z then [.depthTooGreat (.number n)] else []) := by
  simp [depthFaults, Number.toInt?_isSome_iff.2 ⟨z, h⟩, h.isBelow_iff, h.isAbove_iff]

/-- Whatever is no integer is told to be none before its size is told. -/
theorem head?_depthFaults_of_not_integer (h : ∀ n z, v = .number n → ¬n.IsInteger z) :
    (depthFaults v).head? = some (.depthNotInteger v) := by
  cases v with
  | number n =>
    have hnot : ¬n.toInt?.isSome := fun hsome =>
      (Number.toInt?_isSome_iff.1 hsome).elim fun z hz => h n z rfl hz
    simp [depthFaults, hnot]
  | _ => rfl

theorem integer_or_not (v : Setting) :
    (∃ n z, v = .number n ∧ n.IsInteger z) ∨ ∀ n z, v = .number n → ¬n.IsInteger z := by
  by_cases h : ∃ n z, v = .number n ∧ n.IsInteger z
  · exact .inl h
  · exact .inr fun n z hv hz => h ⟨n, z, hv, hz⟩

/-- The fault that is found first in a depth is the one that it has. -/
theorem head?_depthFaults : (depthFaults v).head? = some f ↔ IsDepthFault v f := by
  constructor
  · intro hhead
    obtain ⟨n, z, rfl, hz⟩ | hnot := integer_or_not v
    · rw [depthFaults_of_isInteger hz] at hhead
      by_cases hleast : z < leastDepth
      · rw [if_pos hleast] at hhead
        cases hhead
        exact .tooSmall rfl hz hleast
      · rw [if_neg hleast] at hhead
        by_cases hgreatest : greatestDepth < z
        · rw [if_pos hgreatest] at hhead
          cases hhead
          exact .tooGreat rfl hz hgreatest
        · rw [if_neg hgreatest] at hhead
          exact nomatch hhead
    · rw [head?_depthFaults_of_not_integer hnot] at hhead
      cases hhead
      exact .notInteger hnot
  · intro hfault
    cases hfault with
    | notInteger hnot => exact head?_depthFaults_of_not_integer hnot
    | tooSmall hv hz hleast =>
      subst hv
      rw [depthFaults_of_isInteger hz, if_pos hleast]
      rfl
    | @tooGreat n z hv hz hgreatest =>
      subst hv
      have hleast : ¬z < leastDepth := by simp only [leastDepth, greatestDepth] at *; omega
      rw [depthFaults_of_isInteger hz, if_neg hleast, if_pos hgreatest]
      rfl

theorem depthFaults_eq_nil_iff : depthFaults v = [] ↔ ∃ n, IsDepth v n := by
  constructor
  · intro hnil
    obtain ⟨n, z, rfl, hz⟩ | hnot := integer_or_not v
    · rw [depthFaults_of_isInteger hz, List.append_eq_nil_iff] at hnil
      refine ⟨⟨n, Number.toInt?_isSome_iff.2 ⟨z, hz⟩⟩, .number hz ?_ ?_⟩
      · by_contra hleast
        simp [Int.not_le.1 hleast] at hnil
      · by_contra hgreatest
        simp [Int.not_le.1 hgreatest] at hnil
    · have hhead := head?_depthFaults_of_not_integer hnot
      rw [hnil] at hhead
      exact nomatch hhead
  · rintro ⟨n, hdepth⟩
    cases hdepth with
    | number hz hleast hgreatest =>
      rw [depthFaults_of_isInteger hz, if_neg (Int.not_lt.2 hleast),
        if_neg (Int.not_lt.2 hgreatest), List.nil_append]

theorem filenameFaults_eq_nil_iff : filenameFaults v = [] ↔ ∃ s, IsFilename v s := by
  constructor
  · intro hnil
    cases v with
    | text s =>
      refine ⟨s, .text fun hempty => ?_⟩
      rw [filenameFaults, if_pos hempty] at hnil
      exact nomatch hnil
    | _ => exact nomatch hnil
  · rintro ⟨s, hname⟩
    cases hname with
    | text hs => rw [filenameFaults, if_neg hs]

/-- The fault that is found in a file name is the one that it has. -/
theorem head?_filenameFaults : (filenameFaults v).head? = some f ↔ IsFilenameFault v f := by
  constructor
  · intro hhead
    cases v with
    | text s =>
      by_cases hempty : s = ""
      · rw [filenameFaults, if_pos hempty] at hhead
        cases hhead
        exact .empty (by rw [hempty])
      · rw [filenameFaults, if_neg hempty] at hhead
        exact nomatch hhead
    | _ =>
      cases hhead
      exact .notText nofun
  · intro hfault
    cases hfault with
    | empty hv =>
      subst hv
      rfl
    | notText hnot =>
      cases v with
      | text s => exact absurd rfl (hnot s)
      | _ => rfl

theorem of_mem_depthFaults (h : f ∈ depthFaults v) : f.path = [depthKey] ∧ f.shown = [v] := by
  cases v with
  | number n =>
    simp only [depthFaults, List.mem_append] at h
    obtain (h | h) | h := h <;> split at h <;> simp_all [OptionsFault.path, OptionsFault.shown]
  | _ =>
    cases List.mem_singleton.1 h
    exact ⟨rfl, rfl⟩

theorem of_mem_filenameFaults (h : f ∈ filenameFaults v) :
    f.path = [filenameKey] ∧ f.shown = [v] := by
  cases v with
  | text s =>
    rw [filenameFaults] at h
    split at h
    · rename_i hempty
      cases List.mem_singleton.1 h
      exact ⟨rfl, by rw [hempty]; rfl⟩
    · exact nomatch h
  | _ =>
    cases List.mem_singleton.1 h
    exact ⟨rfl, rfl⟩

end Values

section Keys

variable {α : Type} {entries : List (Setting × Setting)} {key : String}
  {look : Setting → List OptionsFault} {form : Setting → α → Prop} {read : Setting → Option α}
  {default a : α}

/-- What a key gives: what its value is, or the default where the key is missing. -/
inductive Chosen (entries : List (Setting × Setting)) (key : String) (form : Setting → α → Prop)
    (default : α) : α → Prop
  | given {v : Setting} {a : α} (hv : HasValue entries key v) (h : form v a) :
    Chosen entries key form default a
  | absent (h : ∀ e ∈ entries, e.1 ≠ .text key) : Chosen entries key form default default

theorem valueFaults_eq_nil_iff :
    valueFaults key look entries = [] ↔ ∀ v, HasValue entries key v → look v = [] := by
  simp only [← find?_eq_some_iff]
  rw [valueFaults]
  cases find? key entries <;> simp

theorem mem_valueFaults {f : OptionsFault} :
    f ∈ valueFaults key look entries ↔ ∃ v, HasValue entries key v ∧ f ∈ look v := by
  simp only [← find?_eq_some_iff]
  rw [valueFaults]
  cases find? key entries <;> simp

theorem head?_valueFaults {f : OptionsFault} :
    (valueFaults key look entries).head? = some f ↔
      ∃ v, HasValue entries key v ∧ (look v).head? = some f := by
  simp only [← find?_eq_some_iff]
  rw [valueFaults]
  cases find? key entries <;> simp

/-- A key gives what is read from it, if nothing is wrong with its value. -/
theorem chosen_iff (hlook : ∀ v, look v = [] ↔ ∃ a, form v a)
    (hread : ∀ v a, form v a → read v = some a) :
    Chosen entries key form default a ↔
      valueFaults key look entries = [] ∧ ((find? key entries).bind read).getD default = a := by
  constructor
  · intro h
    cases h with
    | @given v _ hv hform =>
      have hfound := find?_eq_some_iff.2 hv
      rw [valueFaults, hfound]
      exact ⟨(hlook v).2 ⟨a, hform⟩, by rw [Option.bind_some, hread v a hform, Option.getD_some]⟩
    | absent h => simp [valueFaults, find?_eq_none_iff.2 h]
  · rintro ⟨hnil, hvalue⟩
    cases hfound : find? key entries with
    | none =>
      rw [hfound] at hvalue
      cases hvalue
      exact .absent (find?_eq_none_iff.1 hfound)
    | some v =>
      have hv : HasValue entries key v := find?_eq_some_iff.1 hfound
      obtain ⟨b, hform⟩ := (hlook v).1 (valueFaults_eq_nil_iff.1 hnil v hv)
      rw [hfound, Option.bind_some, hread v b hform, Option.getD_some] at hvalue
      cases hvalue
      exact .given hv hform

theorem isOptionKey_iff {k : Setting} :
    isOptionKey k = true ↔ k = .text depthKey ∨ k = .text filenameKey := by
  rw [isOptionKey, Bool.or_eq_true, sameKey_text, sameKey_text]

theorem mem_unexpectedKeys {k : Setting} :
    k ∈ unexpectedKeys entries ↔
      ∃ e ∈ entries, e.1 = k ∧ ¬(e.1 = .text depthKey ∨ e.1 = .text filenameKey) := by
  rw [unexpectedKeys, List.mem_mergeSort, List.mem_filter, Bool.not_eq_true', ← Bool.not_eq_true,
    isOptionKey_iff, List.mem_map]
  constructor
  · rintro ⟨⟨e, he, rfl⟩, hother⟩
    exact ⟨e, he, rfl, hother⟩
  · rintro ⟨e, he, rfl, hother⟩
    exact ⟨⟨e, he, rfl⟩, hother⟩

theorem keyFaults_eq_nil_iff :
    keyFaults entries = [] ↔ ∀ e ∈ entries, e.1 = .text depthKey ∨ e.1 = .text filenameKey := by
  have hkeys : keyFaults entries = [] ↔ unexpectedKeys entries = [] := by
    rw [keyFaults]
    cases unexpectedKeys entries <;> simp
  rw [hkeys, List.eq_nil_iff_forall_not_mem]
  constructor
  · intro hnone e he
    by_contra hother
    exact hnone e.1 (mem_unexpectedKeys.2 ⟨e, he, rfl, hother⟩)
  · intro hall k hk
    obtain ⟨e, he, rfl, hother⟩ := mem_unexpectedKeys.1 hk
    exact hother (hall e he)

theorem keyFaults_of_ne_nil (h : keyFaults entries ≠ []) :
    keyFaults entries = [.unexpectedKeys (unexpectedKeys entries)] := by
  rw [keyFaults] at h ⊢
  split
  · rename_i hnil
    rw [hnil] at h
    exact absurd rfl h
  · rfl

end Keys

end Options

namespace OptionsFault

variable {fs : List OptionsFault}

/-- Of faults that are equally far away the first is reported. -/
theorem reported?_uniform {n : Nat} (h : ∀ f ∈ fs, f.path.length = n) :
    reported? fs = fs.head? := by
  induction fs with
  | nil => rfl
  | cons f fs ih =>
    obtain ⟨hf, hfs⟩ := List.forall_mem_cons.1 h
    rw [reported?, ih hfs, List.head?_cons]
    cases fs with
    | nil => rfl
    | cons g gs =>
      have hg : g.path.length = n := hfs g List.mem_cons_self
      simp [hf, hg]

/-- What is wrong with the whole is reported before what is wrong with its parts. -/
theorem reported?_whole {f : OptionsFault} (hf : f.path = [])
    (h : ∀ g ∈ fs, 0 < g.path.length) : reported? (fs ++ [f]) = some f := by
  induction fs with
  | nil => rfl
  | cons g gs ih =>
    obtain ⟨hg, hgs⟩ := List.forall_mem_cons.1 h
    rw [List.cons_append, reported?, ih hgs]
    simp [hf, hg]

end OptionsFault

namespace Options

open Setting

section Outcome

variable {given : Setting} {entries : List (Setting × Setting)} {f : OptionsFault}

/-- The setting gives these options. -/
inductive Gives : Setting → Options → Prop
  | null : Gives .null {}
  | mapping {entries : List (Setting × Setting)} {o : Options}
    (hkeys : ∀ e ∈ entries, e.1 = .text depthKey ∨ e.1 = .text filenameKey)
    (hdepth : Chosen entries depthKey IsDepth ({} : Options).maxDepth o.maxDepth)
    (hfilename : Chosen entries filenameKey IsFilename ({} : Options).filename o.filename) :
    Gives (.mapping entries) o

/-- The fault that is to be told of a setting. -/
inductive Reports : Setting → OptionsFault → Prop
  | notMapping {given : Setting} (hnull : given ≠ .null)
    (h : ∀ entries, given ≠ .mapping entries) : Reports given (.notMapping given)
  | unexpectedKeys {entries : List (Setting × Setting)} {e : Setting × Setting} (he : e ∈ entries)
    (h : ¬(e.1 = .text depthKey ∨ e.1 = .text filenameKey)) :
    Reports (.mapping entries) (.unexpectedKeys (unexpectedKeys entries))
  | depth {entries : List (Setting × Setting)} {v : Setting} {f : OptionsFault}
    (hkeys : ∀ e ∈ entries, e.1 = .text depthKey ∨ e.1 = .text filenameKey)
    (hv : HasValue entries depthKey v) (h : IsDepthFault v f) : Reports (.mapping entries) f
  | filename {entries : List (Setting × Setting)} {v : Setting} {f : OptionsFault}
    (hkeys : ∀ e ∈ entries, e.1 = .text depthKey ∨ e.1 = .text filenameKey)
    (hdepth : ∀ w, HasValue entries depthKey w → ∃ n, IsDepth w n)
    (hv : HasValue entries filenameKey v) (h : IsFilenameFault v f) : Reports (.mapping entries) f

/-- A setting in which something is wrong, and a part of it that is shown where that is told. -/
inductive Shows : Setting → Setting → Prop
  | whole {given : Setting} (hnull : given ≠ .null) (h : ∀ entries, given ≠ .mapping entries) :
    Shows given given
  | key {entries : List (Setting × Setting)} {e : Setting × Setting} (he : e ∈ entries)
    (h : ¬(e.1 = .text depthKey ∨ e.1 = .text filenameKey)) : Shows (.mapping entries) e.1
  | depth {entries : List (Setting × Setting)} {v : Setting} (hv : HasValue entries depthKey v)
    (h : ¬∃ n, IsDepth v n) : Shows (.mapping entries) v
  | filename {entries : List (Setting × Setting)} {v : Setting}
    (hv : HasValue entries filenameKey v) (h : ¬∃ s, IsFilename v s) : Shows (.mapping entries) v

/-- To tell what is wrong with the setting takes an integer with too many digits. -/
def ShowsTooLong (given : Setting) : Prop :=
  ∃ s z, Shows given s ∧ s.Holds z ∧ Number.IsTooLong z

theorem faults_mapping :
    faults (.mapping entries) = valueFaults depthKey depthFaults entries ++
      valueFaults filenameKey filenameFaults entries ++ keyFaults entries := rfl

theorem length_path_of_mem_values
    (h : f ∈ valueFaults depthKey depthFaults entries ++
      valueFaults filenameKey filenameFaults entries) : f.path.length = 1 := by
  obtain h | h := List.mem_append.1 h
  · obtain ⟨v, -, hf⟩ := mem_valueFaults.1 h
    rw [(of_mem_depthFaults hf).1, List.length_singleton]
  · obtain ⟨v, -, hf⟩ := mem_valueFaults.1 h
    rw [(of_mem_filenameFaults hf).1, List.length_singleton]

theorem faults_of_not_mapping (hnull : given ≠ .null) (h : ∀ entries, given ≠ .mapping entries) :
    faults given = [.notMapping given] := by
  cases given with
  | null => exact absurd rfl hnull
  | mapping entries => exact absurd rfl (h entries)
  | _ => rfl

theorem faults_null : faults .null = [] := by
  simp [faults, entries?, valueFaults, Setting.find?, keyFaults, unexpectedKeys]

theorem null_or_mapping (given : Setting) :
    given = .null ∨ (∃ entries, given = .mapping entries) ∨
      given ≠ .null ∧ ∀ entries, given ≠ .mapping entries := by
  cases given <;> simp

theorem reported?_mapping :
    OptionsFault.reported? (faults (.mapping entries)) = some f ↔ Reports (.mapping entries) f := by
  rw [faults_mapping]
  by_cases hkeys : keyFaults entries = []
  · have hknown := keyFaults_eq_nil_iff.1 hkeys
    rw [hkeys, List.append_nil, OptionsFault.reported?_uniform fun _ => length_path_of_mem_values,
      List.head?_append, Option.or_eq_some_iff, List.head?_eq_none_iff, head?_valueFaults,
      head?_valueFaults, valueFaults_eq_nil_iff]
    simp only [head?_depthFaults, head?_filenameFaults, depthFaults_eq_nil_iff]
    constructor
    · rintro (⟨v, hv, hf⟩ | ⟨hdepth, v, hv, hf⟩)
      · exact .depth hknown hv hf
      · exact .filename hknown hdepth hv hf
    · intro hreports
      cases hreports with
      | depth _ hv hf => exact .inl ⟨_, hv, hf⟩
      | filename _ hdepth hv hf => exact .inr ⟨hdepth, _, hv, hf⟩
      | unexpectedKeys he hother => exact absurd (hknown _ he) hother
      | notMapping hnull h => exact absurd rfl (h entries)
  · have hother : ∃ e ∈ entries, ¬(e.1 = .text depthKey ∨ e.1 = .text filenameKey) := by
      by_contra hnone
      exact hkeys (keyFaults_eq_nil_iff.2 fun e he => by_contra fun h => hnone ⟨e, he, h⟩)
    rw [keyFaults_of_ne_nil hkeys, OptionsFault.reported?_whole rfl fun g hg => by
      rw [length_path_of_mem_values hg]; exact Nat.one_pos]
    constructor
    · intro h
      cases h
      obtain ⟨e, he, h⟩ := hother
      exact .unexpectedKeys he h
    · intro hreports
      cases hreports with
      | unexpectedKeys he h => rfl
      | depth hknown hv hf => exact absurd (keyFaults_eq_nil_iff.2 hknown) hkeys
      | filename hknown _ hv hf => exact absurd (keyFaults_eq_nil_iff.2 hknown) hkeys
      | notMapping hnull h => exact absurd rfl (h entries)

/-- What is reported of the faults of a setting is what is to be told of it. -/
theorem reported?_iff : OptionsFault.reported? (faults given) = some f ↔ Reports given f := by
  obtain rfl | ⟨entries, rfl⟩ | ⟨hnull, hmapping⟩ := null_or_mapping given
  · rw [faults_null]
    constructor
    · intro h
      exact nomatch h
    · intro hreports
      cases hreports with
      | notMapping hnull h => exact absurd rfl hnull
  · exact reported?_mapping
  · rw [faults_of_not_mapping hnull hmapping]
    constructor
    · intro h
      cases h
      exact .notMapping hnull hmapping
    · intro hreports
      cases hreports with
      | notMapping => rfl
      | _ => exact absurd rfl (hmapping _)

theorem chosenDepth_iff {n : WholeNumber} :
    Chosen entries depthKey IsDepth ({} : Options).maxDepth n ↔
      valueFaults depthKey depthFaults entries = [] ∧ (ofEntries entries).maxDepth = n := by
  apply chosen_iff
  · exact fun _ => depthFaults_eq_nil_iff
  · intro v n h
    cases h
    exact WholeNumber.ofNumber?_number ⟨_, _⟩

theorem chosenFilename_iff {s : String} :
    Chosen entries filenameKey IsFilename ({} : Options).filename s ↔
      valueFaults filenameKey filenameFaults entries = [] ∧ (ofEntries entries).filename = s := by
  apply chosen_iff
  · exact fun _ => filenameFaults_eq_nil_iff
  · intro v n h
    cases h
    rfl

/-- A setting gives options exactly if nothing is wrong with it. -/
theorem gives_iff {o : Options} :
    Gives given o ↔ faults given = [] ∧ ofEntries ((entries? given).getD []) = o := by
  obtain rfl | ⟨entries, rfl⟩ | ⟨hnull, hmapping⟩ := null_or_mapping given
  · constructor
    · intro h
      cases h
      exact ⟨faults_null, rfl⟩
    · rintro ⟨-, rfl⟩
      exact .null
  · rw [faults_mapping, List.append_eq_nil_iff, List.append_eq_nil_iff, keyFaults_eq_nil_iff]
    constructor
    · intro h
      cases h with
      | mapping hkeys hdepth hfilename =>
        obtain ⟨hdepth, hmaxDepth⟩ := chosenDepth_iff.1 hdepth
        obtain ⟨hfilename, hname⟩ := chosenFilename_iff.1 hfilename
        refine ⟨⟨⟨hdepth, hfilename⟩, hkeys⟩, ?_⟩
        cases o
        exact congr (congrArg Options.mk hmaxDepth) hname
    · rintro ⟨⟨⟨hdepth, hfilename⟩, hkeys⟩, rfl⟩
      exact .mapping hkeys (chosenDepth_iff.2 ⟨hdepth, rfl⟩) (chosenFilename_iff.2 ⟨hfilename, rfl⟩)
  · rw [faults_of_not_mapping hnull hmapping]
    constructor
    · intro h
      cases h with
      | null => exact absurd rfl hnull
      | mapping => exact absurd rfl (hmapping _)
    · intro h
      exact nomatch h.1

theorem shows_mapping_iff {s : Setting} :
    Shows (.mapping entries) s ↔ ∃ f ∈ faults (.mapping entries), s ∈ f.shown := by
  simp only [faults_mapping, List.mem_append, mem_valueFaults]
  constructor
  · intro h
    cases h with
    | whole hnull hmapping => exact absurd rfl (hmapping entries)
    | @key _ e he hother =>
      have hkey : e.1 ∈ unexpectedKeys entries := mem_unexpectedKeys.2 ⟨e, he, rfl, hother⟩
      have hne : keyFaults entries ≠ [] := fun hnil => hother (keyFaults_eq_nil_iff.1 hnil e he)
      rw [keyFaults_of_ne_nil hne]
      exact ⟨_, .inr (List.mem_singleton_self _), hkey⟩
    | depth hv hfault =>
      obtain ⟨f, hf⟩ := List.exists_mem_of_ne_nil _ (mt depthFaults_eq_nil_iff.1 hfault)
      exact ⟨f, .inl (.inl ⟨s, hv, hf⟩), by simp [(of_mem_depthFaults hf).2]⟩
    | filename hv hfault =>
      obtain ⟨f, hf⟩ := List.exists_mem_of_ne_nil _ (mt filenameFaults_eq_nil_iff.1 hfault)
      exact ⟨f, .inl (.inr ⟨s, hv, hf⟩), by simp [(of_mem_filenameFaults hf).2]⟩
  · rintro ⟨f, (⟨v, hv, hf⟩ | ⟨v, hv, hf⟩) | hf, hs⟩
    · rw [(of_mem_depthFaults hf).2, List.mem_singleton] at hs
      subst hs
      exact .depth hv fun h => List.ne_nil_of_mem hf (depthFaults_eq_nil_iff.2 h)
    · rw [(of_mem_filenameFaults hf).2, List.mem_singleton] at hs
      subst hs
      exact .filename hv fun h => List.ne_nil_of_mem hf (filenameFaults_eq_nil_iff.2 h)
    · rw [keyFaults_of_ne_nil (List.ne_nil_of_mem hf), List.mem_singleton] at hf
      subst hf
      obtain ⟨e, he, rfl, hother⟩ := mem_unexpectedKeys.1 hs
      exact .key he hother

/-- What is shown where the faults of a setting are told. -/
theorem shows_iff {s : Setting} : Shows given s ↔ ∃ f ∈ faults given, s ∈ f.shown := by
  obtain rfl | ⟨entries, rfl⟩ | ⟨hnull, hmapping⟩ := null_or_mapping given
  · rw [faults_null]
    constructor
    · intro h
      cases h with
      | whole hnull h => exact absurd rfl hnull
    · rintro ⟨f, hf, -⟩
      exact nomatch hf
  · exact shows_mapping_iff
  · rw [faults_of_not_mapping hnull hmapping]
    constructor
    · intro h
      cases h with
      | whole => exact ⟨_, List.mem_singleton_self _, List.mem_singleton_self _⟩
      | _ => exact absurd rfl (hmapping _)
    · rintro ⟨f, hf, hs⟩
      cases List.mem_singleton.1 hf
      cases List.mem_singleton.1 hs
      exact .whole hnull hmapping

theorem showsTooLong_iff :
    ShowsTooLong given ↔ ∃ f ∈ faults given, f.isWritable = false := by
  simp only [OptionsFault.isWritable, List.all_eq_false, Bool.not_eq_true, isWritable_eq_false_iff]
  constructor
  · rintro ⟨s, z, hs, hz, hlong⟩
    obtain ⟨f, hf, hs⟩ := shows_iff.1 hs
    exact ⟨f, hf, s, hs, z, hz, hlong⟩
  · rintro ⟨f, hf, s, hs, z, hz, hlong⟩
    exact ⟨s, z, shows_iff.2 ⟨f, hf, hs⟩, hz, hlong⟩

theorem reported?_eq_none_iff {fs : List OptionsFault} :
    OptionsFault.reported? fs = none ↔ fs = [] := by
  cases fs with
  | nil => simp [OptionsFault.reported?]
  | cons f fs =>
    rw [OptionsFault.reported?]
    split
    · split <;> simp
    · simp

theorem ofSetting_of_fault (h : OptionsFault.reported? (faults given) = some f) :
    ofSetting given =
      if (faults given).all OptionsFault.isWritable then .error (.refused f)
      else .error .unwritable := by
  rw [ofSetting, h]

theorem ofSetting_eq_ok_iff {o : Options} : ofSetting given = .ok o ↔ Gives given o := by
  rw [gives_iff]
  cases hreported : OptionsFault.reported? (faults given) with
  | none =>
    rw [ofSetting, hreported, Except.ok.injEq]
    exact ⟨fun h => ⟨reported?_eq_none_iff.1 hreported, h⟩, And.right⟩
  | some fault =>
    have hne : faults given ≠ [] := by
      intro hnil
      rw [hnil] at hreported
      exact nomatch hreported
    rw [ofSetting_of_fault hreported]
    constructor
    · intro h
      split at h <;> exact nomatch h
    · intro h
      exact absurd h.1 hne

/-- Nothing is told exactly where an integer with too many digits would have to be shown. -/
theorem ofSetting_eq_unwritable_iff :
    ofSetting given = .error .unwritable ↔ ShowsTooLong given := by
  rw [showsTooLong_iff]
  cases hreported : OptionsFault.reported? (faults given) with
  | none =>
    rw [ofSetting, hreported, reported?_eq_none_iff.1 hreported]
    exact ⟨nofun, fun ⟨f, hf, _⟩ => nomatch hf⟩
  | some fault =>
    rw [ofSetting_of_fault hreported]
    by_cases hall : (faults given).all OptionsFault.isWritable
    · rw [if_pos hall]
      refine ⟨nofun, fun ⟨f, hf, hnot⟩ => ?_⟩
      rw [List.all_eq_true.1 hall f hf] at hnot
      exact nomatch hnot
    · rw [if_neg hall]
      rw [List.all_eq_true] at hall
      refine ⟨fun _ => ?_, fun _ => rfl⟩
      by_contra hnone
      exact hall fun f hf => by_contra fun hnot => hnone ⟨f, hf, Bool.not_eq_true _ ▸ hnot⟩

theorem ofSetting_eq_refused_iff :
    ofSetting given = .error (.refused f) ↔ Reports given f ∧ ¬ShowsTooLong given := by
  rw [← reported?_iff, ← ofSetting_eq_unwritable_iff]
  cases hreported : OptionsFault.reported? (faults given) with
  | none =>
    rw [ofSetting, hreported]
    exact ⟨nofun, fun h => nomatch h.1⟩
  | some fault =>
    rw [ofSetting_of_fault hreported]
    by_cases hall : (faults given).all OptionsFault.isWritable
    · simp [hall]
    · simp [hall]

/-- Of every setting it is settled what comes of it: options as it gives them, the fault that is to
be told of it, or neither where an integer with too many digits would have to be shown. -/
theorem ofSetting_outcome (given : Setting) :
    (∀ o, ofSetting given = .ok o ↔ Gives given o) ∧
      (ofSetting given = .error .unwritable ↔ ShowsTooLong given) ∧
      ∀ f, ofSetting given = .error (.refused f) ↔ Reports given f ∧ ¬ShowsTooLong given :=
  ⟨fun _ => ofSetting_eq_ok_iff, ofSetting_eq_unwritable_iff, fun _ => ofSetting_eq_refused_iff⟩

theorem showsTooLong_depth {z : Int} (hgreat : greatestDepth < z) (hlong : Number.IsTooLong z) :
    ShowsTooLong (.mapping [(.text depthKey, .int z)]) := by
  have hnot : ¬∃ n, IsDepth (.int z) n := by
    rintro ⟨n, h⟩
    cases h with
    | number h hleast hgreatest =>
      cases h
      exact Int.not_lt.2 hgreatest hgreat
  exact ⟨_, z, .depth ⟨[], [], rfl, nofun⟩ hnot, .number, hlong⟩

/-- An integer with 3600 hexadecimal digits, which are more than 4300 decimal ones. -/
def longDepth : Int := 0x10 ^ 3600 - 1

/-- Such an integer is not a depth, but that is not told. -/
theorem ofSetting_longDepth :
    (∀ o, ofSetting (.mapping [(.text depthKey, .int longDepth)]) ≠ .ok o) ∧
      ∀ f, ofSetting (.mapping [(.text depthKey, .int longDepth)]) ≠ .error (.refused f) := by
  have hgreat : greatestDepth < longDepth := by decide +kernel
  have hlong : Number.IsTooLong longDepth := Number.isWritable_int.1 (by decide +kernel)
  simp [ofSetting_eq_unwritable_iff.2 (showsTooLong_depth hgreat hlong)]

end Outcome

end Options

end RuleLang
