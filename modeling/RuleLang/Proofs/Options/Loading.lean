import RuleLang.Options.File
import RuleLang.Proofs.Options.Admission
import RuleLang.Proofs.Text.Utf8

/-!
What comes of a file that is to hold options. Either it holds some, with a depth and a file name in
bounds, or it is said what is wrong with it, in a message that names the path. There are exactly
three exceptions, of which something else is said: the path has a null character, a scalar in the
file has no value, or an integer is too long to tell what is wrong with it (`load_outcome`).
-/
namespace RuleLang

section Paths

theorem Text.mem_intercalate {c separator : Char} (h : c ≠ separator) (parts : List (List Char)) :
    c ∈ [separator].intercalate parts ↔ ∃ part ∈ parts, c ∈ part := by
  induction parts with
  | nil => simp
  | cons part parts ih =>
    cases parts with
    | nil => simp
    | cons next parts =>
      rw [List.intercalate_cons_cons, List.mem_append, List.mem_append, ih]
      simp [h]

theorem Path.null_not_mem_rootOf (text : List Char) : '\x00' ∉ (rootOf text).toList := by
  rw [rootOf]
  split <;> decide

theorem Path.null_mem_names (text : String) :
    (∃ name ∈ (ofString text).names, '\x00' ∈ name.toList) ↔ '\x00' ∈ text.toList := by
  have hparts := Text.mem_intercalate (show '\x00' ≠ '/' by decide)
    (Text.separated '/' text.toList)
  rw [Text.intercalate_separated] at hparts
  rw [hparts, ofString]
  simp only [List.mem_map, List.mem_filter]
  constructor
  · rintro ⟨name, ⟨part, ⟨hpart, -⟩, rfl⟩, hnull⟩
    exact ⟨part, hpart, by rwa [String.toList_ofList] at hnull⟩
  · rintro ⟨part, hpart, hnull⟩
    -- a part with a null character is neither empty nor a dot, so that it is kept
    have hkept : (!part.isEmpty && decide (part ≠ ['.'])) = true := by
      rw [Bool.and_eq_true, decide_eq_true_iff, Bool.not_eq_true', List.isEmpty_eq_false_iff]
      refine ⟨List.ne_nil_of_mem hnull, fun hdot => ?_⟩
      rw [hdot] at hnull
      exact absurd hnull (by decide)
    exact ⟨_, ⟨part, ⟨hpart, hkept⟩, rfl⟩, by rwa [String.toList_ofList]⟩

/-- A path has a null character exactly if the text that means it has one. -/
theorem Path.null_mem_toString (text : String) :
    '\x00' ∈ (ofString text).toString.toList ↔ '\x00' ∈ text.toList := by
  rw [Path.toString, ← null_mem_names text]
  split
  · rename_i hempty
    simp [hempty.2]
  · have hroot : '\x00' ∉ (ofString text).root.toList := null_not_mem_rootOf text.toList
    rw [String.toList_append, List.mem_append, String.toList_intercalate]
    change _ ∨ '\x00' ∈ ['/'].intercalate _ ↔ _
    rw [Text.mem_intercalate (by decide)]
    simp [hroot]

namespace Directory

variable (d : Directory)

theorem enter_ne_nullCharacter (place : Place) (name : String) :
    d.enter place name ≠ .error .nullCharacter := by
  unfold enter
  repeat' split
  all_goals exact nofun

theorem follow_ne_nullCharacter (place : Place) (names : List String) :
    d.follow place names ≠ .error .nullCharacter := by
  induction names generalizing place with
  | nil => exact nofun
  | cons name names ih =>
    rw [follow]
    split
    · split
      · exact ih _
      · rename_i e he
        exact he ▸ d.enter_ne_nullCharacter place name
    · exact nofun
    · exact nofun

/-- No path is refused for a null character but one that has it. -/
theorem read_eq_nullCharacter_iff (path : String) :
    d.read path = .error .nullCharacter ↔ '\x00' ∈ path.toList := by
  have hread : d.read path = .error .nullCharacter ↔ d.resolve path = .error .nullCharacter := by
    rw [read]
    split <;> simp_all
  rw [hread]
  constructor
  · intro h
    by_contra hnull
    rw [resolve, if_neg hnull] at h
    generalize (if path.toList.head? = some '/' then Place.outside else .inside []) = start at h
    split at h
    · exact nomatch h
    · split at h
      · exact nomatch h
      · dsimp only at h
        split at h
        · rename_i e he
          rw [Except.error.injEq] at h
          exact d.follow_ne_nullCharacter _ _ (h ▸ he)
        · split at h <;> exact nomatch h
  · intro hnull
    rw [resolve, if_pos hnull]

end Directory

end Paths

section Loading

variable {interpret : ContentReader} {bytes : List UInt8} {read : FileReader} {path : Path}
  {o : Options}

/-- An error of the configuration names the path. -/
theorem OptionsFileError.message_of_isConfiguration {e : OptionsFileError} (path : Path)
    (h : e.isConfiguration = true) : ∃ said, e.message path = path.toString ++ ": " ++ said := by
  cases e with
  | unreadable e => cases e <;> exact ⟨_, rfl⟩
  | notText e => exact ⟨_, rfl⟩
  | notYaml => exact ⟨_, rfl⟩
  | invalid fault => exact ⟨_, rfl⟩
  | badScalar e => exact nomatch h
  | badPath => exact nomatch h

namespace Options

theorem Chosen.value_or_default {α : Type} {entries : List (Setting × Setting)} {key : String}
    {form : Setting → α → Prop} {default a : α} (h : Chosen entries key form default a) :
    (∃ v, form v a) ∨ a = default := by
  cases h with
  | given hv h => exact .inl ⟨_, h⟩
  | absent h => exact .inr rfl

/-- Whatever options a setting gives, their depth and their file name are in bounds. -/
theorem Gives.bounds {given : Setting} (h : Gives given o) :
    (∃ z, o.maxDepth.number.IsInteger z ∧ leastDepth ≤ z ∧ z ≤ greatestDepth) ∧
      o.filename ≠ "" := by
  cases h with
  | null => exact ⟨⟨64, .int, by decide, by decide⟩, by decide⟩
  | mapping hkeys hdepth hfilename =>
    constructor
    · obtain ⟨v, hv⟩ | hdefault := hdepth.value_or_default
      · generalize o.maxDepth = n at hv
        cases hv with
        | number hz hleast hgreatest => exact ⟨_, hz, hleast, hgreatest⟩
      · rw [hdefault]
        exact ⟨64, .int, by decide, by decide⟩
    · obtain ⟨v, hv⟩ | hdefault := hfilename.value_or_default
      · cases hv with
        | text hne => exact hne
      · rw [hdefault]
        decide

theorem ofContent_eq_ok_iff :
    ofContent interpret bytes = .ok o ↔ ∃ given, interpret bytes = .ok given ∧ Gives given o := by
  rw [ofContent]
  cases hread : interpret bytes with
  | error e => cases e <;> simp
  | ok given =>
    simp only [← ofSetting_eq_ok_iff, Except.ok.injEq, exists_eq_left']
    cases ofSetting given with
    | ok o => simp
    | error e => cases e <;> simp

/-- A scalar in the content of a file cannot be used: it has no value, or it is too long an integer
to tell what is wrong with it. -/
def HasBadScalar (interpret : ContentReader) (bytes : List UInt8) : Prop :=
  (∃ e, interpret bytes = .error (.noValue e)) ∨
    ∃ given, interpret bytes = .ok given ∧ ShowsTooLong given

theorem hasBadScalar_iff :
    HasBadScalar interpret bytes ↔
      ∃ e, ofContent interpret bytes = .error e ∧ e.isConfiguration = false := by
  rw [HasBadScalar, ofContent]
  cases hread : interpret bytes with
  | error e => cases e <;> simp [OptionsFileError.isConfiguration]
  | ok given =>
    simp only [← ofSetting_eq_unwritable_iff, Except.ok.injEq, exists_eq_left']
    cases ofSetting given with
    | ok o => simp
    | error e => cases e <;> simp [OptionsFileError.isConfiguration]

theorem loadWith_eq_ok_iff :
    loadWith interpret read path = .ok o ↔
      ∃ bytes, read path.toString = .ok bytes ∧ ofContent interpret bytes = .ok o := by
  rw [loadWith]
  cases read path.toString with
  | error e => cases e <;> simp
  | ok bytes => simp

/-- What is said of a file is no error of the configuration only if its path or its content cannot
be used at all. -/
theorem loadWith_escapes_iff :
    (∃ e, loadWith interpret read path = .error e ∧ e.isConfiguration = false) ↔
      read path.toString = .error .nullCharacter ∨
        ∃ bytes, read path.toString = .ok bytes ∧ HasBadScalar interpret bytes := by
  rw [loadWith]
  cases read path.toString with
  | error e => cases e <;> simp [OptionsFileError.isConfiguration]
  | ok bytes => simp [hasBadScalar_iff]

/-- However the content of files is read as a setting, a path leads to options in bounds or to an
error. An error of the configuration names the path. There is another error exactly if the path has
a null character, or leads to a file with a scalar that cannot be used. -/
theorem load_outcome (interpret : ContentReader) (d : Directory) (text : String) :
    let path := Path.ofString text
    let loaded := loadWith interpret d.read path
    (∀ o, loaded = .ok o →
      (∃ z, o.maxDepth.number.IsInteger z ∧ 1 ≤ z ∧ z ≤ 100) ∧ o.filename ≠ "") ∧
    (∀ e, loaded = .error e → e.isConfiguration = true →
      ∃ said, e.message path = path.toString ++ ": " ++ said) ∧
    ((∃ e, loaded = .error e ∧ e.isConfiguration = false) ↔
      '\x00' ∈ text.toList ∨
        ∃ bytes, d.read path.toString = .ok bytes ∧ HasBadScalar interpret bytes) := by
  intro path loaded
  refine ⟨fun o ho => ?_, fun e _ he => e.message_of_isConfiguration path he, ?_⟩
  · obtain ⟨bytes, -, hbytes⟩ := loadWith_eq_ok_iff.1 ho
    obtain ⟨given, -, hgives⟩ := ofContent_eq_ok_iff.1 hbytes
    exact hgives.bounds
  · rw [loadWith_escapes_iff, d.read_eq_nullCharacter_iff, Path.null_mem_toString]

/-- A file in which the depth has the form of a binary number, but no digit. -/
def digitless : Directory := ⟨[(["q.yaml"], .file (Text.bytesOf "max_depth: 0b_\n"))]⟩

/-- Of a number without digits something else is said than that the configuration is wrong. -/
theorem load_digitless :
    (∀ o, load digitless.read (.ofString "q.yaml") ≠ .ok o) ∧
      ∀ e, load digitless.read (.ofString "q.yaml") = .error e → e.isConfiguration = false := by
  have hloaded : ((load digitless.read (.ofString "q.yaml")).map fun _ => ()).mapError
      OptionsFileError.isConfiguration = .error false := by
    decide +kernel
  constructor
  · intro o ho
    rw [ho] at hloaded
    cases hloaded
  · intro e he
    rw [he] at hloaded
    exact Except.error.inj hloaded

end Options

end Loading

end RuleLang
