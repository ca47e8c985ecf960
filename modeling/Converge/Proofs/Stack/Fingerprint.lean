import Converge.Proofs.Fingerprint
import Converge.Proofs.Json.Suffix
import Converge.Proofs.Stack.Alike
import Converge.Proofs.Stack.Check

/-!
# Fingerprints of stacks

The fingerprint of a stack is the digest of its name, a zero, its environment, and what is written of
its resources. No name holds a zero. Between the environment and the resources there is nothing, and
an environment can be any text, even one that ends with what is written of resources: such a stack
has the fingerprint of another one, of which these are the first resources. In no other way do two
stacks come by the same fingerprint, as far as the digest tells texts apart, unless they have the
same names and the same resources.

Main statement: `Stack.fingerprint_eq_iff_spills`.
-/

namespace Converge

/-! ## Resources as they are written -/

namespace Declaration

/-- What is written of several declarations, one after the other. -/
def written (ds : List Declaration) : String := String.join (ds.map fun d => d.toJson.compact)

theorem toList_written (ds : List Declaration) :
    (written ds).toList = (ds.map toJson).flatMap Json.compactChars := by
  simp only [written, String.toList_join, List.flatMap_map]
  rfl

variable {ds es : List Declaration}

theorem isRecord_of_isStorable (h : ∀ d ∈ ds, d.IsStorable) :
    ∀ doc ∈ ds.map toJson, doc.IsRecord :=
  List.forall_mem_map.2 fun d hd => ⟨_, rfl, (h d hd).isFinite⟩

/-- Declarations that can be stored are written the same, each by itself, just if they are alike. -/
theorem map_compact_eq_iff (hds : ∀ d ∈ ds, d.IsStorable) (hes : ∀ e ∈ es, e.IsStorable) :
    (ds.map toJson).map Json.compact = (es.map toJson).map Json.compact ↔
      List.Forall₂ Alike ds es := by
  rw [Json.map_compact_eq_iff (List.forall_mem_map.2 fun d hd => (hds d hd).isFinite)
      (List.forall_mem_map.2 fun e he => (hes e he).isFinite),
    List.forall₂_map_left_iff, List.forall₂_map_right_iff]
  exact forall₂_congr_of_mem fun d hd e he => alike_toJson_iff (hds d hd) (hes e he)

theorem forall₂_alike_comm (hds : ∀ d ∈ ds, d.IsStorable) (hes : ∀ e ∈ es, e.IsStorable) :
    List.Forall₂ Alike es ds ↔ List.Forall₂ Alike ds es := by
  rw [← map_compact_eq_iff hes hds, eq_comm, map_compact_eq_iff hds hes]

theorem written_eq_of_alike (hds : ∀ d ∈ ds, d.IsStorable) (hes : ∀ e ∈ es, e.IsStorable)
    (h : List.Forall₂ Alike ds es) : written ds = written es := by
  have hmap := (map_compact_eq_iff hds hes).2 h
  rw [List.map_map, List.map_map] at hmap
  exact congrArg String.join hmap

theorem written_append (ds es : List Declaration) : written (ds ++ es) = written ds ++ written es := by
  simp [written]

/-- What is written of declarations ends with a brace. -/
theorem getLast?_written (h : ds ≠ []) : (written ds).toList.getLast? = some '\x7d' := by
  obtain ⟨ds, d, rfl⟩ := (List.eq_nil_or_concat' ds).resolve_left h
  rw [written_append, String.toList_append, toList_written [d], List.map_singleton,
    List.flatMap_singleton, toJson, Json.compactChars_object, ← List.cons_append, ← List.append_assoc,
    List.getLast?_concat]

end Declaration

namespace Stack

variable {s t : Stack}

/-! ## Texts that meet -/

/-- The text of which the fingerprint is the digest. -/
def hashedText (s : Stack) : String :=
  s.project.name ++ "\x00" ++ s.project.environment ++ Declaration.written s.resources

theorem fingerprint_eq_hashedText (s : Stack) :
    Fingerprint.ofStack s = Sha256.hexOfString s.hashedText := rfl

/-- Whether the environment of a stack is that of another one followed by what is written of the
first resources there, and the other resources there are those of the stack. -/
def Spills (s t : Stack) : Prop :=
  ∃ front back, t.resources = front ++ back ∧
    s.project.environment = t.project.environment ++ Declaration.written front ∧
    List.Forall₂ Declaration.Alike s.resources back

/-- Whether the environment of a stack does not end like a resource. -/
def EndsOpen (s : Stack) : Prop := s.project.environment.toList.getLast? ≠ some '\x7d'

instance (s : Stack) : Decidable s.EndsOpen := inferInstanceAs (Decidable (_ ≠ _))

theorem spills_of_forall₂ (henvironment : s.project.environment = t.project.environment)
    (hresources : List.Forall₂ Declaration.Alike s.resources t.resources) : s.Spills t :=
  ⟨[], t.resources, rfl, by simp [henvironment, Declaration.written], hresources⟩

/-- Where environments end open, or are the same, none goes on with resources of another stack. -/
theorem Spills.forall₂ (h : s.Spills t)
    (hopen : s.project.environment = t.project.environment ∨ s.EndsOpen) :
    s.project.environment = t.project.environment ∧
      List.Forall₂ Declaration.Alike s.resources t.resources := by
  obtain ⟨front, back, hresources, henvironment, hback⟩ := h
  have hfront : front = [] := by
    by_contra hne
    have hlast := Declaration.getLast?_written hne
    rcases hopen with hsame | hopen
    · rw [hsame, ← String.toList_inj, String.toList_append, List.self_eq_append_right] at henvironment
      rw [henvironment] at hlast
      cases hlast
    · refine hopen ?_
      rw [henvironment, String.toList_append, List.getLast?_append, hlast]
      rfl
  subst hfront
  rw [List.nil_append] at hresources
  exact ⟨by simpa [Declaration.written] using henvironment, hresources ▸ hback⟩

section Storable

variable (hs : ∀ d ∈ s.resources, d.IsStorable) (ht : ∀ d ∈ t.resources, d.IsStorable)

include hs ht

theorem spills_of_append {more : List Char}
    (henvironment : s.project.environment.toList = t.project.environment.toList ++ more)
    (hwritten : (Declaration.written t.resources).toList =
      more ++ (Declaration.written s.resources).toList) : s.Spills t := by
  rw [Declaration.toList_written, Declaration.toList_written] at hwritten
  obtain ⟨front, back, hsplit, hfront, hback⟩ := Json.exists_split
    (Declaration.isRecord_of_isStorable ht) (Declaration.isRecord_of_isStorable hs) hwritten
  obtain ⟨front, back, hresources, rfl, rfl⟩ := List.map_eq_append_iff.1 hsplit
  have hstorable : ∀ d ∈ back, d.IsStorable := fun d hd =>
    ht d (hresources ▸ List.mem_append_right _ hd)
  refine ⟨front, back, hresources, ?_, ?_⟩
  · rw [← String.toList_inj, henvironment, String.toList_append, Declaration.toList_written, hfront]
  · exact (Declaration.map_compact_eq_iff hs hstorable).1 hback.symm

theorem Spills.hashedText_eq (h : s.Spills t) (hname : s.project.name = t.project.name) :
    s.hashedText = t.hashedText := by
  obtain ⟨front, back, hresources, henvironment, hback⟩ := h
  have hstorable : ∀ d ∈ back, d.IsStorable := fun d hd =>
    ht d (hresources ▸ List.mem_append_right _ hd)
  have hwritten := Declaration.written_eq_of_alike hs hstorable hback
  rw [hashedText, hashedText, hname, henvironment, hwritten, hresources, Declaration.written_append]
  simp only [String.append_assoc]

/-- The texts of two stacks, whose names have no zero, are the same just if the names are, and one
environment spills over into the resources of the other stack. -/
theorem hashedText_eq_iff (hname : '\x00' ∉ s.project.name.toList)
    (hname' : '\x00' ∉ t.project.name.toList) :
    s.hashedText = t.hashedText ↔
      s.project.name = t.project.name ∧ (s.Spills t ∨ t.Spills s) := by
  constructor
  · intro h
    have hsplit (s : Stack) : s.hashedText.toList = s.project.name.toList ++
        '\x00' :: (s.project.environment.toList ++ (Declaration.written s.resources).toList) := by
      simp [hashedText]
    have hchars := congrArg String.toList h
    rw [hsplit, hsplit] at hchars
    have hzero : ∀ (c : Char) (tail rest : List Char), '\x00' :: rest = c :: tail →
        decide (c ≠ '\x00') = false := by
      rintro _ _ _ ⟨⟩
      rfl
    obtain ⟨hnames, hrest⟩ := Json.append_inj_of_all (p := fun c => decide (c ≠ '\x00'))
      (fun c hc => decide_eq_true (ne_of_mem_of_not_mem hc hname))
      (fun c hc => decide_eq_true (ne_of_mem_of_not_mem hc hname'))
      (fun c tail => hzero c tail _) (fun c tail => hzero c tail _) hchars
    refine ⟨String.toList_inj.1 hnames, ?_⟩
    rcases List.append_eq_append_iff.1 (List.cons.inj hrest).2 with
      ⟨more, henvironment, hwritten⟩ | ⟨more, henvironment, hwritten⟩
    · exact .inr (spills_of_append ht hs henvironment hwritten)
    · exact .inl (spills_of_append hs ht henvironment hwritten)
  · rintro ⟨hname, hspills | hspills⟩
    · exact hspills.hashedText_eq hs ht hname
    · exact (hspills.hashedText_eq ht hs hname.symm).symm

end Storable

/-! ## The fingerprint -/

/-- Project names have no zero. -/
theorem zero_notMem_of_isProjectName {name : String} (h : isProjectName name = true) :
    '\x00' ∉ name.toList := by
  unfold isProjectName at h
  split at h
  · cases h
  · next first rest hlist =>
    simp only [Bool.and_eq_true, List.all_eq_true] at h
    rw [hlist]
    intro hmem
    rcases List.mem_cons.1 hmem with rfl | hmem
    · exact absurd h.1.1.1 (by decide)
    · exact absurd (h.1.1.2 _ hmem) (by decide)

/-- Two checked stacks that have been read from documents have the same fingerprint just if they have
the same name, and the environment of one of them is that of the other, or that of the other followed
by what is written of its first resources, with the same resources left. If they have the same
environment, or if both end open, then the fingerprint gives name, environment and resources away,
but for numbers that are written alike. -/
theorem fingerprint_eq_iff_spills {value value' : Json} (hs : ofJson value = .ok s)
    (ht : ofJson value' = .ok t) (hvalid : s.check.errors = []) (hvalid' : t.check.errors = [])
    (h : Sha256.NoCollision [s.hashedText, t.hashedText]) :
    (Fingerprint.ofStack s = Fingerprint.ofStack t ↔
      s.project.name = t.project.name ∧ (s.Spills t ∨ t.Spills s)) ∧
    (s.project.environment = t.project.environment ∨ (s.EndsOpen ∧ t.EndsOpen) →
      (Fingerprint.ofStack s = Fingerprint.ofStack t ↔
        s.project = t.project ∧ List.Forall₂ Declaration.Alike s.resources t.resources)) := by
  have hstorable := yields value s hs
  have hstorable' := yields value' t ht
  have hsame : Fingerprint.ofStack s = Fingerprint.ofStack t ↔
      s.project.name = t.project.name ∧ (s.Spills t ∨ t.Spills s) := by
    rw [fingerprint_eq_hashedText, fingerprint_eq_hashedText, h.hexOfString_inj (by simp) (by simp)]
    exact hashedText_eq_iff hstorable hstorable'
      (zero_notMem_of_isProjectName (isProjectName_of_check hvalid))
      (zero_notMem_of_isProjectName (isProjectName_of_check hvalid'))
  refine ⟨hsame, fun hopen => hsame.trans ⟨?_, ?_⟩⟩
  · rintro ⟨hname, hspills | hspills⟩
    · obtain ⟨henvironment, hall⟩ := hspills.forall₂ (hopen.imp_right And.left)
      exact ⟨congrArg₂ Project.mk hname henvironment, hall⟩
    · obtain ⟨henvironment, hall⟩ := hspills.forall₂ (hopen.imp Eq.symm And.right)
      exact ⟨congrArg₂ Project.mk hname henvironment.symm,
        (Declaration.forall₂_alike_comm hstorable hstorable').1 hall⟩
  · rintro ⟨hproject, hall⟩
    exact ⟨congrArg Project.name hproject,
      .inl (spills_of_forall₂ (congrArg Project.environment hproject) hall)⟩

/-- A shop with some resources. -/
def declaring (environment : String) (resources : List Declaration) : Stack where
  project := { name := "shop", environment }
  resources

/-- A log sink. -/
def sink (id : String) : Declaration where
  id
  kind := .logSink

theorem ofJson_declaring (environment : String) :
    ofJson (declaring environment [sink "logs"]).toJson = .ok (declaring environment [sink "logs"]) := by
  with_unfolding_all rfl

theorem noCollision_declaring : Sha256.NoCollision
    [(declaring "dev" [sink "logs"]).hashedText, (declaring "prod" [sink "logs"]).hashedText] := by
  have hdev : Sha256.hexOfString (declaring "dev" [sink "logs"]).hashedText =
      "36208f9a2606468b5e9093558b51fd7736dc290f6aa4d4d7b714671967da775a" := by decide +kernel
  have hprod : Sha256.hexOfString (declaring "prod" [sink "logs"]).hashedText =
      "c9f04849cb9756828850a0c04e50ca960ede6bf274589ebdb13af7fbd87f4a02" := by decide +kernel
  refine .of_nodup ?_
  rw [List.map_cons, List.map_cons, List.map_nil, hdev, hprod]
  decide

/-- The shop has another fingerprint in another environment. -/
theorem fingerprint_eq_iff_spills_prod :
    (declaring "dev" [sink "logs"]).check.errors = [] ∧
    (declaring "prod" [sink "logs"]).check.errors = [] ∧
    Fingerprint.ofStack (declaring "dev" [sink "logs"]) ≠
      Fingerprint.ofStack (declaring "prod" [sink "logs"]) := by
  have hdev : (declaring "dev" [sink "logs"]).check.errors = [] := by decide +kernel
  have hprod : (declaring "prod" [sink "logs"]).check.errors = [] := by decide +kernel
  have hopen : (declaring "dev" [sink "logs"]).EndsOpen ∧ (declaring "prod" [sink "logs"]).EndsOpen := by
    decide
  obtain ⟨-, hsame⟩ := fingerprint_eq_iff_spills (ofJson_declaring "dev") (ofJson_declaring "prod")
    hdev hprod noCollision_declaring
  refine ⟨hdev, hprod, fun heq => ?_⟩
  exact absurd ((hsame (.inr hopen)).1 heq).1 (by decide)

/-- A log sink that is declared, and one that the environment spells out, make up the same
fingerprint, of two stacks that are checked without an error. -/
theorem fingerprint_eq_spilled :
    ∃ s t : Stack, ofJson s.toJson = .ok s ∧ ofJson t.toJson = .ok t ∧
      s.check.errors = [] ∧ t.check.errors = [] ∧ Fingerprint.ofStack s = Fingerprint.ofStack t ∧
      s.project.environment ≠ t.project.environment ∧ s.resources.length ≠ t.resources.length := by
  refine ⟨declaring ("dev" ++ Declaration.written [sink "logs"]) [sink "audit"],
    declaring "dev" [sink "logs", sink "audit"], by with_unfolding_all rfl, by with_unfolding_all rfl,
    by decide +kernel, by decide +kernel, ?_, by decide +kernel, by decide⟩
  rw [fingerprint_eq_hashedText, fingerprint_eq_hashedText, hashedText, hashedText]
  simp only [declaring, String.append_assoc, ← Declaration.written_append, List.singleton_append]

end Stack

end Converge
