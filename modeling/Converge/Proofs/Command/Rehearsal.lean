import Converge.Command.Perform
import Converge.Proofs.Host.Path
import Converge.Proofs.Program
import Mathlib.Logic.Function.Basic

/-!
# Rehearsals

An apply or a removal can be rehearsed: it is carried out on a copy of the state, which lies in a
directory of its own, by a provider in memory. It changes only files of that directory, and reaches
no service. So it leaves the state alone, unless that is kept in the very same directory.

Files are told apart by the places that their paths lead to, since one place has many paths.

Main statement: `Workspace.rehearses_apart_iff`.
-/

namespace Converge

open Program

/-! ## Files by their places -/

namespace Host

/-- The contents of files by the places where they lie. -/
abbrev Disk : Type := List String → Option String

/-- The places of the files that a request may change, seen from a working directory. -/
def Request.places (start : List String) : Request → List (List String)
  | .writeFile path _ | .appendFile path _ | .removeFile path => [Path.resolve start path]
  | .renameFile source target => [Path.resolve start source, Path.resolve start target]
  | _ => []

/-- What an answer tells of the files before and after. A change that fails may leave anything. -/
def Tells (start : List String) (disk after : Disk) : (request : Request) → Answer request → Prop
  | .readFile path, .ok text => disk (Path.resolve start path) = some text
  | .readFile path, .error fault => fault.isAbsence = true → disk (Path.resolve start path) = none
  | .writeFile path content, .ok () => after (Path.resolve start path) = some content
  | .appendFile path content, .ok () => ∃ text, disk (Path.resolve start path) = some text ∧
    after (Path.resolve start path) = some (text ++ content)
  | .removeFile path, .ok () => after (Path.resolve start path) = none
  | .removeFile path, .error fault => fault.isAbsence = true → disk (Path.resolve start path) = none
  | .renameFile source target, .ok () =>
    after (Path.resolve start target) = disk (Path.resolve start source) ∧
      (Path.resolve start source ≠ Path.resolve start target →
        after (Path.resolve start source) = none)
  | _, _ => True

/-- How a host answers, and what becomes of its files, of which only those change that it is asked
to change. -/
def Serves (start : List String) (disk : Disk) (request : Request) (answer : Answer request)
    (after : Disk) : Prop :=
  (∀ place, place ∉ request.places start → after place = disk place) ∧
    Tells start disk after request answer

end Host

/-! ## What is asked of a host -/

namespace Location

/-- The names of the files in a directory of state. -/
def fileNames : List String := [fileName .state, fileName .lock, temporaryName]

/-- Whether a path is that of a file in a directory of state. -/
def Contains (directory path : String) : Prop :=
  ∃ name ∈ fileNames, path = Path.join directory name

/-- Whether a request changes no files but those of a directory of state, and reaches no service. -/
def Confined (directory : String) : Host.Request → Prop
  | .writeFile path _ | .removeFile path => Contains directory path
  | .renameFile source target => Contains directory source ∧ Contains directory target
  | .appendFile _ _ | .object _ _ _ | .exchange _ => False
  | _ => True

variable {directory other : String} {document : Medium.Document}

/-- The place of a document in a directory of state, seen from a working directory. -/
def placeOf (start : List String) (directory : String) (document : Medium.Document) : List String :=
  Path.resolve start (Path.join directory (fileName document))

theorem isFileName_of_mem {name : String} (h : name ∈ fileNames) : Path.IsFileName name := by
  simp only [fileNames, List.mem_cons, List.not_mem_nil, or_false] at h
  rcases h with rfl | rfl | rfl <;> exact ⟨by decide, by decide, by decide, by decide⟩

theorem placeOf_eq (start : List String) (directory : String) (document : Medium.Document) :
    placeOf start directory document = Path.resolve start directory ++ [fileName document] :=
  Path.resolve_join start directory
    (isFileName_of_mem (by cases document <;> simp [fileNames]))

theorem contains_fileName (directory : String) (document : Medium.Document) :
    Contains directory (Path.join directory (fileName document)) :=
  ⟨_, by cases document <;> simp [fileNames], rfl⟩

theorem contains_temporary (directory : String) :
    Contains directory (Path.join directory temporaryName) := ⟨_, by simp [fileNames], rfl⟩

theorem mem_places {start : List String} {request : Host.Request} {place : List String}
    (h : Confined directory request) (hplace : place ∈ request.places start) :
    ∃ name, place = Path.resolve start directory ++ [name] := by
  have hcontains {path : String} (h : Contains directory path) :
      ∃ name, Path.resolve start path = Path.resolve start directory ++ [name] := by
    obtain ⟨name, hname, rfl⟩ := h
    exact ⟨name, Path.resolve_join start directory (isFileName_of_mem hname)⟩
  cases request with
  | writeFile path content => exact List.mem_singleton.1 hplace ▸ hcontains h
  | removeFile path => exact List.mem_singleton.1 hplace ▸ hcontains h
  | renameFile source target =>
    simp only [Host.Request.places, List.mem_cons, List.not_mem_nil, or_false] at hplace
    rcases hplace with rfl | rfl
    · exact hcontains h.1
    · exact hcontains h.2
  | appendFile path content => cases h
  | _ => cases hplace

/-- Documents in another directory stay as they are. -/
theorem serves_apart {start : List String} {request : Host.Request} {answer : Host.Answer request}
    {disk after : Host.Disk}
    (hapart : Path.resolve start other ≠ Path.resolve start directory)
    (h : Confined directory request) (hserves : Host.Serves start disk request answer after)
    (document : Medium.Document) :
    after (placeOf start other document) = disk (placeOf start other document) := by
  refine hserves.1 _ fun hplace => ?_
  obtain ⟨name, hname⟩ := mem_places h hplace
  rw [placeOf_eq] at hname
  exact hapart (List.append_inj' hname rfl).1

theorem asksOnly_attempt {α : Type} {cause : String → StateError} {what : String}
    {operation : Program Host.calls (Except FileFault α)} {Allowed : Host.Request → Prop}
    (h : operation.AsksOnly Allowed) : (attempt cause what operation).run.AsksOnly Allowed :=
  .bindLift h fun answer => by cases answer <;> exact .pure _

theorem asksOnly_readFile (directory other : String) (document : Medium.Document) :
    (readFile other document).AsksOnly (Confined directory) := by
  refine .bind (.request trivial) fun found => ?_
  cases found with
  | ok text => exact .pure _
  | error fault =>
    cases hfault : fault.isAbsence <;> cases document <;> simp only [hfault] <;> exact .pure _

theorem asksOnly_ensureDirectory (directory : String) :
    (ensureDirectory directory).run.AsksOnly (Confined directory) := by
  refine .bindLift (.request trivial) fun found => ?_
  cases found with
  | true => exact .pure _
  | false => exact asksOnly_attempt (.request trivial)

theorem asksOnly_writeFile (directory : String) (document : Medium.Document) (text : String) :
    (writeFile directory document text).run.AsksOnly (Confined directory) := by
  refine .bindExcept (asksOnly_ensureDirectory directory) fun _ => ?_
  cases document with
  | state =>
    refine .bindExcept (asksOnly_attempt (.request (contains_temporary directory))) fun _ => ?_
    exact asksOnly_attempt
      (.request ⟨contains_temporary directory, contains_fileName directory .state⟩)
  | lock => exact asksOnly_attempt (.request (contains_fileName directory .lock))

theorem asksOnly_removeFile (directory : String) (document : Medium.Document) :
    (removeFile directory document).AsksOnly (Confined directory) := by
  refine .bind (.request (contains_fileName directory document)) fun removed => ?_
  cases removed with
  | ok _ => exact .pure _
  | error fault =>
    cases hfault : fault.isAbsence <;> cases document <;> simp only [hfault] <;> exact .pure _

theorem asksOnly_holderName (directory : String) :
    holderName.AsksOnly (Confined directory) :=
  .bind (.request trivial) fun _ => .bind (.request trivial) fun _ =>
    .bind (.request trivial) fun _ => .pure _

theorem asksOnly_inDirectory (directory : String) (request : Medium.Request) :
    (inDirectory directory request).AsksOnly (Confined directory) := by
  cases request with
  | read document => exact asksOnly_readFile directory directory document
  | write document text => exact asksOnly_writeFile directory document text
  | remove document => exact asksOnly_removeFile directory document
  | has document => exact .map (.request trivial)
  | now => exact .request trivial
  | uniqueId => exact .request trivial
  | holderName => exact asksOnly_holderName directory

theorem asksOnly_store (directory : String) (request : Store.Request) :
    ((Location.directory directory).store request).AsksOnly (Confined directory) :=
  .interpret (.anything _) fun request _ => asksOnly_inDirectory directory request

/-- A state may be read from anywhere. -/
theorem asksOnly_load (directory other : String) :
    ((Location.directory other).store .load).AsksOnly (Confined directory) := by
  have hload : (Store.onMedium .load).AsksOnly (· = Medium.Request.read .state) := by
    refine .bindExcept (.request rfl) fun found => ?_
    cases found with
    | none => exact .pure _
    | some text =>
      refine .bindExcept ?_ fun state => .pure _
      cases State.decode text <;> exact .pure _
  refine .interpret hload ?_
  rintro request rfl
  exact asksOnly_readFile directory other .state

end Location

/-! ## What a rehearsal asks -/

namespace Workspace

open Location

variable {w : Workspace} {path : String} {α : Type} {Allowed : Host.Request → Prop}

/-- The directory of the copy of the state. -/
def scratchDirectory (w : Workspace) : String :=
  Path.join (Path.join w.directory defaultDirectory) "simulate"

/-- Reconciling by a provider in memory. -/
theorem asksOnly_run (directory : String) (settings : RunSettings) (held : Memory)
    (p : Program Reconcile.calls α) :
    (Facilities.run ⟨.directory directory, .memory held⟩ settings p).AsksOnly
      (Confined directory) := by
  refine .map (.interpretState (fun request held => ?_) held)
  cases request with
  | store request => exact .bind (asksOnly_store directory request) fun _ => .pure _
  | now => exact .bind (.request trivial) fun _ => .pure _
  | execute plan => exact .pure _

/-- A rehearsal begins with a copy of the state, and goes on with it and a provider in memory. -/
theorem asksOnly_facilities {go : Facilities → Task α}
    (hlocation : w.stack.stateLocation w.directory = .ok (.directory path))
    (h : ∀ held, (go ⟨.directory w.scratchDirectory, .memory held⟩).run.AsksOnly
      (Confined w.scratchDirectory)) :
    (w.facilities true >>= go).run.AsksOnly (Confined w.scratchDirectory) := by
  have hplace : w.location = pure (.directory path) := by
    rw [location, hlocation]
    rfl
  rw [facilities, hplace, pure_bind, if_pos rfl, rehearsal, bind_assoc]
  refine .bindExcept (.map (asksOnly_load w.scratchDirectory path)) fun found => ?_
  cases found with
  | some state =>
    simp only [bind_assoc, pure_bind]
    exact .bindExcept (.map (asksOnly_store ..)) fun _ => h _
  | none =>
    simp only [bind_assoc, pure_bind]
    exact .bindExcept (.map (asksOnly_store ..)) fun _ => h _

theorem asksOnly_notes (directory : String) (lines : List String) :
    (Task.notes lines).run.AsksOnly (Confined directory) := by
  induction lines with
  | nil => exact .pure _
  | cons line rest ih => exact .bindExcept (.map (.request trivial)) fun _ => ih

theorem asksOnly_confirm (directory question expected refusal : String) :
    (Task.confirm question expected refusal).run.AsksOnly (Confined directory) := by
  refine .bindExcept (.map (.request trivial)) fun _ => ?_
  refine .bindExcept (.map (.request trivial)) fun line => ?_
  split <;> exact .pure _

theorem asksOnly_readPlan (directory path : String) :
    (readPlan path).run.AsksOnly (Confined directory) := by
  refine .bindExcept (.map (.request trivial)) fun text => ?_
  split <;> exact .pure _

/-- Reconciling, after which the result is shown. -/
theorem asksOnly_reconcile {directory : String} {settled : Reconciliation → Task α} (held : Memory)
    (operation : String → Program Reconcile.calls (Except Error Reconciliation))
    (h : ∀ result, (settled result).run.AsksOnly (Confined directory)) :
    (do
      let holder ← ExceptT.lift Location.holderName
      let result ← w.reconcile ⟨.directory directory, .memory held⟩ (operation holder)
      settled result : Task α).run.AsksOnly (Confined directory) :=
  .bindExcept (.map (asksOnly_holderName directory)) fun _ =>
    .bindExcept (asksOnly_run directory _ held _) h

theorem asksOnly_ite {condition : Prop} {_ : Decidable condition} {p q : Task α}
    (hp : p.run.AsksOnly Allowed) (hq : q.run.AsksOnly Allowed) :
    (if condition then p else q).run.AsksOnly Allowed := by
  split
  · exact hp
  · exact hq

/-- Something that is done in one case only. -/
theorem asksOnly_when {condition : Prop} {_ : Decidable condition} {p : Task Unit}
    {go : Unit → Task α} (hp : p.run.AsksOnly Allowed) (hgo : (go ()).run.AsksOnly Allowed) :
    (if condition then p >>= go else go ()).run.AsksOnly Allowed :=
  asksOnly_ite (.bindExcept hp fun _ => hgo) hgo

theorem asksOnly_say (directory line : String) :
    (Task.say line).run.AsksOnly (Confined directory) := .map (.request trivial)

theorem asksOnly_carryOut (directory : String) (format : Format) (yes : Bool) (held : Memory)
    (plan : Plan) :
    (w.carryOut format yes ⟨.directory directory, .memory held⟩ plan).run.AsksOnly
      (Confined directory) := by
  rw [carryOut]
  refine asksOnly_when (asksOnly_say directory _) (asksOnly_ite (.pure _) ?_)
  refine asksOnly_when (asksOnly_confirm directory _ _ _) ?_
  exact asksOnly_reconcile held _ fun result =>
    .bindExcept (asksOnly_say directory _) fun _ => .pure _

theorem asksOnly_apply (format : Format) (yes : Bool) (reviewed : Option String)
    (hlocation : w.stack.stateLocation w.directory = .ok (.directory path)) :
    (w.apply format yes true reviewed).run.AsksOnly (Confined w.scratchDirectory) := by
  refine asksOnly_facilities hlocation fun held => ?_
  cases reviewed with
  | some file =>
    exact .bindExcept (asksOnly_readPlan _ file) (asksOnly_carryOut _ format yes held)
  | none => exact .bindExcept (asksOnly_run _ _ held _) (asksOnly_carryOut _ format yes held)

theorem asksOnly_destroy (format : Format) (yes : Bool)
    (hlocation : w.stack.stateLocation w.directory = .ok (.directory path)) :
    (w.destroy format yes true).run.AsksOnly (Confined w.scratchDirectory) := by
  refine asksOnly_facilities hlocation fun held => ?_
  refine .bindExcept (.map (asksOnly_load w.scratchDirectory w.scratchDirectory)) fun found => ?_
  cases found with
  | none => exact .bindExcept (.map (.request trivial)) fun _ => .pure _
  | some state =>
    refine asksOnly_ite (.bindExcept (.map (.request trivial)) fun _ => .pure _) ?_
    refine asksOnly_when (asksOnly_notes _ _) (asksOnly_when (asksOnly_confirm _ _ _ _) ?_)
    exact asksOnly_reconcile held _ fun result => .bindExcept (asksOnly_say _ _) fun _ => .pure _

/-! ## What becomes of the state -/

/-- The commands that rehearse. -/
inductive Rehearses (w : Workspace) : Task Bool → Prop
  | apply (format : Format) (yes : Bool) (reviewed : Option String) :
    Rehearses w (w.apply format yes true reviewed)
  | destroy (format : Format) (yes : Bool) : Rehearses w (w.destroy format yes true)

theorem Rehearses.asksOnly {command : Task Bool} (h : w.Rehearses command)
    (hlocation : w.stack.stateLocation w.directory = .ok (.directory path)) :
    command.run.AsksOnly (Confined w.scratchDirectory) := by
  cases h with
  | apply format yes reviewed => exact asksOnly_apply format yes reviewed hlocation
  | destroy format yes => exact asksOnly_destroy format yes hlocation

/-- A removal that is rehearsed on no state removes the lock, if the state is kept where the copy
lies. -/
theorem exists_lock_removed {start : List String}
    (hlocation : w.stack.stateLocation w.directory = .ok (.directory path))
    (hsame : Path.resolve start path = Path.resolve start w.scratchDirectory) (format : Format)
    (yes : Bool) (lock : Lock) : ∃ disk exchanges after,
      Drives (Host.Serves start) (w.destroy format yes true).run disk exchanges (.ok true) after ∧
        disk (placeOf start path .lock) = some lock.encode ∧
        after (placeOf start path .lock) = none := by
  have hplace (document : Medium.Document) :
      placeOf start w.scratchDirectory document = placeOf start path document := by
    rw [placeOf_eq, placeOf_eq, hsame]
  let disk : Host.Disk := Function.update (fun _ => none) (placeOf start path .lock) lock.encode
  let after : Host.Disk := fun _ => none
  have hnone : disk (placeOf start path .state) = none :=
    Function.update_of_ne (by simp [placeOf_eq, fileName]) ..
  have hload : Host.Serves start disk (.readFile (Path.join path (fileName .state)))
      (.error .missing) disk := ⟨fun _ _ => rfl, fun _ => hnone⟩
  have hremove : Host.Serves start disk
      (.removeFile (Path.join w.scratchDirectory (fileName .state))) (.error .missing) disk :=
    ⟨fun _ _ => rfl, fun _ => (congrArg disk (hplace .state)).trans hnone⟩
  have hunlock : Host.Serves start disk
      (.removeFile (Path.join w.scratchDirectory (fileName .lock))) (.ok ()) after := by
    refine ⟨fun place hother => ?_, rfl⟩
    have hne : place ≠ placeOf start path .lock :=
      fun heq => hother (heq ▸ hplace .lock ▸ List.mem_singleton_self _)
    exact (Function.update_of_ne hne ..).symm
  have hreload : Host.Serves start after
      (.readFile (Path.join w.scratchDirectory (fileName .state))) (.error .missing) after :=
    ⟨fun _ _ => rfl, fun _ => rfl⟩
  have hnote : Host.Serves start after (.printError "No state found, nothing to destroy.\n") ()
      after := ⟨fun _ _ => rfl, trivial⟩
  have hlocal : w.location = pure (.directory path) := by
    rw [location, hlocation]
    rfl
  have hdrives : ∃ exchanges, Drives (Host.Serves start) (w.destroy format yes true).run disk
      exchanges (.ok true) after := by
    rw [destroy, facilities, hlocal, pure_bind, if_pos rfl]
    exact ⟨_, .ask hload (.ask hremove (.ask hunlock (.ask hreload (.ask hnote (.done _ _)))))⟩
  obtain ⟨exchanges, hdrives⟩ := hdrives
  exact ⟨disk, exchanges, after, hdrives, Function.update_self .., rfl⟩

/-- A rehearsal reaches no service and leaves the state and the lock alone, whatever they are and
whatever becomes of it, if and only if the directory of the state is not that of the copy. -/
theorem rehearses_apart_iff (w : Workspace) (start : List String) {path : String}
    (hlocation : w.stack.stateLocation w.directory = .ok (.directory path)) :
    (∀ command disk exchanges result after, w.Rehearses command →
      Drives (Host.Serves start) command.run disk exchanges result after →
        (∀ exchange ∈ exchanges, ∀ message, exchange.1 ≠ .exchange message) ∧
        ∀ document, after (placeOf start path document) = disk (placeOf start path document)) ↔
      Path.resolve start path ≠ Path.resolve start w.scratchDirectory := by
  constructor
  · intro h hsame
    obtain ⟨disk, exchanges, after, hdrives, hheld, hgone⟩ :=
      exists_lock_removed hlocation hsame .text true (.new "" "" ⟨0, 0⟩)
    have hkept := (h _ _ _ _ _ (.destroy .text true) hdrives).2 .lock
    rw [hheld, hgone] at hkept
    cases hkept
  · intro hapart command disk exchanges result after hrehearses hdrives
    have hasks := hrehearses.asksOnly hlocation
    refine ⟨fun exchange hexchange message heq => ?_, fun document => ?_⟩
    · have hallowed := hasks.of_drives hdrives exchange hexchange
      rw [heq] at hallowed
      exact hallowed
    · exact hasks.keeps (fun hallowed hserves => serves_apart hapart hallowed hserves document)
        hdrives

/-- A workspace in the working directory that declares nothing and keeps its state at a path. -/
def barren (path : Option String) : Workspace where
  stack := { project := { name := "shop" }, state := { path } }
  directory := "."
  environment := .empty

/-- A state in the usual directory is left alone. -/
theorem rehearses_apart_usual :
    (barren none).stack.stateLocation "." = .ok (.directory (Path.join "." ".stackplan")) ∧
    ∀ command disk exchanges result after, (barren none).Rehearses command →
      Drives (Host.Serves ["srv"]) command.run disk exchanges result after →
        (∀ exchange ∈ exchanges, ∀ message, exchange.1 ≠ .exchange message) ∧
        ∀ document, after (placeOf ["srv"] (Path.join "." ".stackplan") document) =
          disk (placeOf ["srv"] (Path.join "." ".stackplan") document) :=
  ⟨rfl, (rehearses_apart_iff (barren none) ["srv"] rfl).2 (by decide +kernel)⟩

/-- A valid declaration, and a removal whose rehearsal removes the lock that somebody holds. -/
theorem rehearses_lock_removed :
    (barren ".stackplan/simulate").stack.validate.isOk ∧
    (barren ".stackplan/simulate").stack.stateLocation "." =
      .ok (.directory (Path.join "." ".stackplan/simulate")) ∧
    ∃ disk exchanges after,
      Drives (Host.Serves ["srv"]) ((barren ".stackplan/simulate").destroy .text true true).run disk
        exchanges (.ok true) after ∧
      disk (placeOf ["srv"] (Path.join "." ".stackplan/simulate") .lock) =
        some (Lock.new "1" "ada" ⟨0, 0⟩).encode ∧
      after (placeOf ["srv"] (Path.join "." ".stackplan/simulate") .lock) = none :=
  ⟨by decide +kernel, rfl, exists_lock_removed rfl (by decide +kernel) .text true _⟩

end Workspace

end Converge
