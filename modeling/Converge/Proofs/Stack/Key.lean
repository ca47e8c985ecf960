import Converge.Proofs.Stack.Check
import Converge.State.Location
import Mathlib.Data.List.DropRight

/-!
# Keys of stacks in a shared bucket

Stacks that share a bucket and what their keys begin with are told apart by project name and
environment. These are joined by a hyphen, and strokes at the end are trimmed. Both may hold hyphens
themselves, so a hyphen of a project name can be taken for the one that joins; two such stacks have
their documents under the same keys. Apart from strokes at the end of an environment that is the
only way for keys to meet.

Main statement: `Stack.key_eq_iff`.
-/

namespace Converge

/-! ## Strokes -/

namespace Location

/-- Trimming the end of a list leaves all that stands before an item which is not trimmed. -/
theorem rdropWhile_append_cons {α : Type} {p : α → Bool} {x : α} (hx : p x = false)
    (before after : List α) :
    (before ++ x :: after).rdropWhile p = before ++ x :: after.rdropWhile p := by
  simp only [List.rdropWhile, List.reverse_append, List.reverse_cons, List.append_assoc,
    List.singleton_append, List.dropWhile_append, List.dropWhile_cons, hx]
  split
  · next hnone => simp_all
  · simp

theorem toList_trimStrokes (text : String) :
    (trimStrokes text).toList = (text.toList.dropWhile (· = '/')).rdropWhile (· = '/') := by
  simp [trimStrokes, List.rdropWhile]

theorem head?_trimStrokes (text : String) : (trimStrokes text).toList.head? ≠ some '/' := by
  intro hhead
  obtain ⟨rest, hrest⟩ := List.head?_eq_some_iff.1 hhead
  obtain ⟨trimmed, htrimmed⟩ :=
    List.rdropWhile_prefix (· = '/') (text.toList.dropWhile (· = '/'))
  have hfirst := List.head?_dropWhile_not (· = '/') text.toList
  rw [← htrimmed, ← toList_trimStrokes, hrest] at hfirst
  simp at hfirst

/-- The names of the files differ and are equally long. -/
theorem append_fileName_inj {before before' : List Char} {document document' : Medium.Document}
    (h : before ++ '/' :: (fileName document).toList =
      before' ++ '/' :: (fileName document').toList) :
    before = before' ∧ document = document' := by
  have hlength : ('/' :: (fileName document).toList).length =
      ('/' :: (fileName document').toList).length := by
    cases document <;> cases document' <;> simp [fileName]
  obtain ⟨hbefore, hname⟩ := List.append_inj' h hlength
  have hsame : fileName document = fileName document' :=
    String.toList_inj.1 (List.cons.inj hname).2
  refine ⟨hbefore, ?_⟩
  cases document <;> cases document' <;> simp [fileName] at hsame ⊢

end Location

namespace Stack

variable {s t : Stack}

/-! ## The parts of a key -/

/-- What stands before project name and environment in the keys of a stack. -/
def keyFolder (s : Stack) : String :=
  if (Location.trimStrokes (s.state.keyPrefix.getD "")).isEmpty then ""
  else Location.trimStrokes (s.state.keyPrefix.getD "") ++ "/"

/-- What stands for the environment in the keys of a stack. -/
def environmentKey (s : Stack) : String :=
  String.ofList (s.project.environment.toList.rdropWhile (· = '/'))

theorem stateLocation_eq {bucket : String} (hbackend : s.state.backend = .s3)
    (hbucket : s.state.bucket = some bucket) (base : String) :
    s.stateLocation base = .ok (.bucket bucket (s.keyFolder ++ s.stateKey)) := by
  simp only [stateLocation, hbackend, hbucket, keyFolder, apply_ite (· ++ s.stateKey)]
  simp [toString]

theorem exists_bucket_of_check (h : s.check.errors = []) (hbackend : s.state.backend = .s3) :
    ∃ bucket, s.state.bucket = some bucket := by
  simp only [check, StateSettings.check, Findings.errors_append, List.append_eq_nil_iff,
    Findings.errors_errorIf_eq_nil, hbackend] at h
  cases hbucket : s.state.bucket with
  | none => simp [hbucket] at h
  | some bucket => exact ⟨bucket, rfl⟩

/-- A project name begins with a letter. -/
theorem head?_name_of_check (h : s.check.errors = []) :
    ∃ first, s.project.name.toList.head? = some first ∧ first ≠ '/' := by
  have hvalid := isProjectName_of_check h
  unfold isProjectName at hvalid
  split at hvalid
  · cases hvalid
  · next first rest hlist =>
    refine ⟨first, by rw [hlist, List.head?_cons], ?_⟩
    rintro rfl
    simp only [Bool.and_eq_true] at hvalid
    exact absurd hvalid.1.1.1 (by decide)

/-- A key is a folder, project name and environment joined by a hyphen, and a file name. -/
theorem toList_key (h : s.check.errors = []) (document : Medium.Document) :
    (Location.keyOf (s.keyFolder ++ s.stateKey) document).toList =
      s.keyFolder.toList ++ (s.project.name.toList ++ '-' :: s.environmentKey.toList) ++
        '/' :: (Location.fileName document).toList := by
  obtain ⟨first, hfirst, hstroke⟩ := head?_name_of_check h
  obtain ⟨rest, hname⟩ := List.head?_eq_some_iff.1 hfirst
  have hkey : (s.keyFolder ++ s.stateKey).toList =
      s.keyFolder.toList ++ (s.project.name.toList ++ '-' :: s.project.environment.toList) := by
    simp [stateKey, toString]
  -- the folder keeps no stroke at its front, and the name has none there
  have hfront : ((s.keyFolder ++ s.stateKey).toList).dropWhile (· = '/') =
      (s.keyFolder ++ s.stateKey).toList := by
    rw [hkey, hname, keyFolder]
    split
    · simp [hstroke]
    · next hfolder =>
      have hhead := Location.head?_trimStrokes (s.state.keyPrefix.getD "")
      cases hletters : (Location.trimStrokes (s.state.keyPrefix.getD "")).toList with
      | nil => exact absurd (String.isEmpty_iff.2 (String.toList_eq_nil_iff.1 hletters)) hfolder
      | cons letter letters =>
        rw [hletters] at hhead
        simpa [hletters] using hhead
  have htrimmed : (Location.trimStrokes (s.keyFolder ++ s.stateKey)).toList =
      s.keyFolder.toList ++ (s.project.name.toList ++ '-' :: s.environmentKey.toList) := by
    rw [Location.toList_trimStrokes, hfront, hkey, ← List.append_assoc,
      Location.rdropWhile_append_cons (by decide), environmentKey, String.toList_ofList,
      List.append_assoc]
  have hsome : (Location.trimStrokes (s.keyFolder ++ s.stateKey)).isEmpty = false := by
    rw [Bool.eq_false_iff]
    intro hempty
    rw [String.isEmpty_iff.1 hempty] at htrimmed
    simp at htrimmed
  simp [Location.keyOf, hsome, htrimmed, toString]

/-! ## Keys that meet -/

section Joined

variable {name name' environment environment' : String}

/-- Where one of two names goes on for longer, it is with the hyphen that joins the other one. -/
theorem exists_words {more : List Char} (hname : name'.toList = name.toList ++ more)
    (hrest : '-' :: environment.toList = more ++ '-' :: environment'.toList) :
    (name = name' ∧ environment = environment') ∨
      ∃ words, name' = name ++ "-" ++ words ∧ environment = words ++ "-" ++ environment' := by
  cases more with
  | nil =>
    have henvironment : environment.toList = environment'.toList := (List.cons.inj hrest).2
    refine .inl ⟨?_, String.toList_inj.1 henvironment⟩
    rw [← String.toList_inj, hname, List.append_nil]
  | cons c words =>
    obtain ⟨rfl, henvironment⟩ := List.cons.inj hrest
    refine .inr ⟨String.ofList words, ?_, ?_⟩
    · simp [← String.toList_inj, hname]
    · simp [← String.toList_inj, henvironment]

/-- Two pairs of texts give the same text with a hyphen between them if they are the same, or if
the one hyphen stands inside a text of the other pair. -/
theorem joined_eq_iff :
    name.toList ++ '-' :: environment.toList = name'.toList ++ '-' :: environment'.toList ↔
      (name = name' ∧ environment = environment') ∨
      (∃ words, name' = name ++ "-" ++ words ∧ environment = words ++ "-" ++ environment') ∨
      ∃ words, name = name' ++ "-" ++ words ∧ environment' = words ++ "-" ++ environment := by
  constructor
  · intro h
    rcases List.append_eq_append_iff.1 h with ⟨more, hname, hrest⟩ | ⟨more, hname, hrest⟩
    · exact (exists_words hname hrest).imp_right .inl
    · rcases exists_words hname hrest with ⟨rfl, rfl⟩ | hwords
      · exact .inl ⟨rfl, rfl⟩
      · exact .inr (.inr hwords)
  · rintro (⟨rfl, rfl⟩ | ⟨words, rfl, rfl⟩ | ⟨words, rfl, rfl⟩) <;> simp

end Joined

/-- Whether a hyphen inside the project name of `t` can be taken for the one that joins the names of
`s`: some words stand behind the project name of `s` in that of `t`, and before the environment of
`t` in that of `s`. -/
def Overlaps (s t : Stack) : Prop :=
  ∃ words, t.project.name = s.project.name ++ "-" ++ words ∧
    s.environmentKey = words ++ "-" ++ t.environmentKey

/-- Whether the environment of a stack has no hyphen and does not end with a stroke. -/
def HasPlainEnvironment (s : Stack) : Prop :=
  '-' ∉ s.project.environment.toList ∧ s.project.environment.toList.getLast? ≠ some '/'

theorem HasPlainEnvironment.environmentKey_eq (h : s.HasPlainEnvironment) :
    s.environmentKey = s.project.environment := by
  rw [environmentKey, ← String.toList_inj, String.toList_ofList, List.rdropWhile_eq_self_iff]
  intro hne hstroke
  exact h.2 (by rw [List.getLast?_eq_some_getLast hne, of_decide_eq_true hstroke])

theorem HasPlainEnvironment.not_overlaps (h : s.HasPlainEnvironment) : ¬ s.Overlaps t := by
  rintro ⟨words, -, henvironment⟩
  rw [h.environmentKey_eq] at henvironment
  exact h.1 (by simp [henvironment])

/-- Two checked stacks that share a bucket and what their keys begin with have a document under the
same key only if it is the same document and their names are the same, but for strokes at the end of
an environment, or overlap. If the environments are plain, their names are the same. -/
theorem key_eq_iff (hs : s.check.errors = []) (ht : t.check.errors = [])
    (hbackend : s.state.backend = .s3) (hbackend' : t.state.backend = .s3)
    (hbucket : s.state.bucket = t.state.bucket)
    (hbegin : s.state.keyPrefix = t.state.keyPrefix) (base base' : String) :
    ∃ bucket p q, s.stateLocation base = .ok (.bucket bucket p) ∧
      t.stateLocation base' = .ok (.bucket bucket q) ∧
      ∀ document document',
        (Location.keyOf p document = Location.keyOf q document' ↔ document = document' ∧
          ((s.project.name = t.project.name ∧ s.environmentKey = t.environmentKey) ∨
            s.Overlaps t ∨ t.Overlaps s)) ∧
        (s.HasPlainEnvironment → t.HasPlainEnvironment →
          Location.keyOf p document = Location.keyOf q document' → s.project = t.project) := by
  obtain ⟨bucket, hbucketed⟩ := exists_bucket_of_check hs hbackend
  have hfolder : s.keyFolder = t.keyFolder := by rw [keyFolder, keyFolder, hbegin]
  have hkeys (document document' : Medium.Document) :
      Location.keyOf (s.keyFolder ++ s.stateKey) document =
        Location.keyOf (t.keyFolder ++ t.stateKey) document' ↔ document = document' ∧
          ((s.project.name = t.project.name ∧ s.environmentKey = t.environmentKey) ∨
            s.Overlaps t ∨ t.Overlaps s) := by
    rw [← String.toList_inj, toList_key hs, toList_key ht, hfolder]
    constructor
    · intro hkey
      obtain ⟨hnames, hdocument⟩ := Location.append_fileName_inj hkey
      exact ⟨hdocument, joined_eq_iff.1 (List.append_cancel_left hnames)⟩
    · rintro ⟨rfl, hnames⟩
      rw [joined_eq_iff.2 hnames]
  refine ⟨bucket, _, _, stateLocation_eq hbackend hbucketed base,
    stateLocation_eq hbackend' (hbucket ▸ hbucketed) base', fun document document' =>
      ⟨hkeys document document', fun hplain hplain' hkey => ?_⟩⟩
  rcases ((hkeys document document').1 hkey).2 with ⟨hname, henvironment⟩ | hover | hover
  · rw [hplain.environmentKey_eq, hplain'.environmentKey_eq] at henvironment
    exact congrArg₂ Project.mk hname henvironment
  · exact absurd hover hplain.not_overlaps
  · exact absurd hover hplain'.not_overlaps

/-- A stack whose state is kept in a bucket with those of others. -/
def sharing (name environment : String) : Stack where
  project := { name, environment }
  state := { backend := .s3, bucket := some "states", keyPrefix := some "/teams/" }

/-- Two environments of one shop have their documents under keys of their own. -/
theorem key_eq_iff_shop : (sharing "shop" "prod").check.errors = [] ∧
    (sharing "shop" "dev").check.errors = [] ∧
    ∃ bucket p q, (sharing "shop" "prod").stateLocation "." = .ok (.bucket bucket p) ∧
      (sharing "shop" "dev").stateLocation "." = .ok (.bucket bucket q) ∧
      ∀ document document', Location.keyOf p document ≠ Location.keyOf q document' := by
  have hprod : (sharing "shop" "prod").check.errors = [] := by decide +kernel
  have hdev : (sharing "shop" "dev").check.errors = [] := by decide +kernel
  obtain ⟨bucket, p, q, hp, hq, hkeys⟩ := key_eq_iff hprod hdev rfl rfl rfl rfl "." "."
  have hplain : (sharing "shop" "prod").HasPlainEnvironment := by
    constructor <;> decide +kernel
  have hplain' : (sharing "shop" "dev").HasPlainEnvironment := by
    constructor <;> decide +kernel
  refine ⟨hprod, hdev, bucket, p, q, hp, hq, fun document document' hkey => ?_⟩
  exact absurd ((hkeys document document').2 hplain hplain' hkey) (by decide)

/-- The shop in the region and the shop of the region have the same keys for all their documents. -/
theorem key_overlaps : (sharing "shop-eu" "prod").check.errors = [] ∧
    (sharing "shop" "eu-prod").check.errors = [] ∧
    (sharing "shop-eu" "prod").project.name ≠ (sharing "shop" "eu-prod").project.name ∧
    (sharing "shop-eu" "prod").project.environment ≠ (sharing "shop" "eu-prod").project.environment ∧
    ∃ p q, (sharing "shop-eu" "prod").stateLocation "." = .ok (.bucket "states" p) ∧
      (sharing "shop" "eu-prod").stateLocation "." = .ok (.bucket "states" q) ∧
      Location.keyOf p .state = Location.keyOf q .state ∧
      Location.keyOf p .lock = Location.keyOf q .lock := by
  refine ⟨by decide +kernel, by decide +kernel, by decide, by decide, "teams/shop-eu-prod",
    "teams/shop-eu-prod", by decide +kernel, by decide +kernel, rfl, rfl⟩

end Stack

end Converge
