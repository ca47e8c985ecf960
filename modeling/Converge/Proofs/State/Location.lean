import Converge.Proofs.State.Medium
import Converge.State.Location
import Mathlib.Logic.Function.Basic

/-!
# Locations as media

What a directory of a host or a bucket of an object store does for a request to a medium, file by
file or object by object, is what a medium that keeps the same documents answers to it.

Main statements: `Location.Mirrors.answer` and `Location.Mirrors.store`.
-/

namespace Converge

open Program

/-! ## Hosts -/

namespace Host

/-- The files of a host, the objects in the buckets that it reaches, and the ids that it has given
out. -/
structure World where
  files : String → Option String
  objects : String → String → Option String
  issued : List String

namespace World

/-- The world with another text at a path, or without a file there. -/
def putFile (world : World) (path : String) (text : Option String) : World :=
  { world with files := Function.update world.files path text }

/-- The world with another text of an object, or without the object. -/
def putObject (world : World) (bucket key : String) (text : Option String) : World :=
  { world with
    objects := Function.update world.objects bucket
      (Function.update (world.objects bucket) key text) }

end World

/-- How an object store answers. What is kept need not be text. -/
def ObjectResponds (faults : Prop) (world : World) (bucket key : String) :
    ObjectAction → Except String ObjectAnswer → World → Prop
  | .get, answer, after => after = world ∧ ∀ reply, answer = .ok reply →
    match world.objects bucket key with
    | none => reply = .missing
    | some text => ∃ bytes, reply = .content bytes ∧
      ∀ found, String.fromUTF8? bytes = some found → found = text
  | .put content, answer, after =>
    Attempts faults world (world.putObject bucket key (some content)) (answer.map fun _ => ()) after
  | .delete, answer, after =>
    Attempts faults world (world.putObject bucket key none) (answer.map fun _ => ()) after
  | .head, answer, after =>
    Finds (if (world.objects bucket key).isSome then .done else .missing) answer ∧ after = world

/-- How a host answers what has to do with files, objects, the clock and ids, where `faults` says
whether changes may fail. A file that cannot be read is not said to be missing. -/
def Responds (clock : Clock) (faults : Prop) (world : World) :
    (request : Request) → Answer request → World → Prop
  | .readFile path, answer, after => after = world ∧
    ((∃ text, answer = .ok text ∧ world.files path = some text) ∨
      ∃ fault, answer = .error fault ∧ (fault.isAbsence = true → world.files path = none))
  | .writeFile path content, answer, after =>
    Attempts faults world (world.putFile path (some content)) answer after
  | .removeFile path, answer, after =>
    answer = .ok () ∧ after = world.putFile path none ∨ after = world ∧ ∃ fault,
      answer = .error fault ∧ if fault.isAbsence then world.files path = none else faults
  | .renameFile source target, answer, after =>
    (∃ text, world.files source = some text ∧ answer = .ok () ∧
      after = (world.putFile target (some text)).putFile source none) ∨
    (world.files source = none ∨ faults) ∧ (∃ fault, answer = .error fault) ∧ after = world
  | .pathExists path, answer, after =>
    ((world.files path).isSome → answer = true) ∧ after = world
  | .createDirectories _, answer, after => Attempts faults world world answer after
  | .now, now, after => clock.Shows now ∧ after = world
  | .uniqueId, id, after =>
    id ∉ world.issued ∧ after = { world with issued := id :: world.issued }
  | .hostName, _, after => after = world
  | .processId, _, after => after = world
  | .object bucket key action, answer, after =>
    ObjectResponds faults world bucket key action answer after
  | _, _, _ => True

end Host

namespace Location

variable {location : Location} {clock : Clock} {faults : Prop} {world after : Host.World}
  {exchanges : List (Exchange Host.calls)} {document : Medium.Document}

/-- How a location answers a request to a medium. -/
def Responds (location : Location) (clock : Clock) (faults : Prop) (world : Host.World)
    (request : Medium.Request) (answer : Medium.Answer request) (after : Host.World) : Prop :=
  ∃ exchanges,
    Drives (Host.Responds clock faults) (location.answer request) world exchanges answer after

/-! ## Documents -/

/-- The text of a document at a location. -/
def text? (location : Location) (world : Host.World) (document : Medium.Document) : Option String :=
  match location with
  | .directory path => world.files (Path.join path (fileName document))
  | .bucket name keyPrefix => world.objects name (keyOf keyPrefix document)

/-- Whether the documents at a location are the same. -/
structure Same (location : Location) (world after : Host.World) : Prop where
  text : ∀ document, location.text? after document = location.text? world document
  issued : world.issued ⊆ after.issued

/-- Whether one of the documents at a location has got another text. -/
structure Puts (location : Location) (world : Host.World) (document : Medium.Document)
    (text : Option String) (after : Host.World) : Prop where
  self : location.text? after document = text
  other : ∀ other, other ≠ document → location.text? after other = location.text? world other
  issued : world.issued ⊆ after.issued

theorem Same.refl (location : Location) (world : Host.World) : location.Same world world :=
  ⟨fun _ => rfl, List.Subset.refl _⟩

theorem Same.puts {mid : Host.World} {text : Option String} (h : location.Same world mid)
    (h' : location.Puts mid document text after) : location.Puts world document text after where
  self := h'.self
  other other hne := (h'.other other hne).trans (h.text other)
  issued := List.Subset.trans h.issued h'.issued

theorem Puts.same {mid : Host.World} {text : Option String}
    (h : location.Puts world document text mid) (h' : location.Same mid after) :
    location.Puts world document text after where
  self := (h'.text document).trans h.self
  other other hne := (h'.text other).trans (h.other other hne)
  issued := List.Subset.trans h.issued h'.issued

theorem fileName_inj {document other : Medium.Document} (h : fileName document = fileName other) :
    document = other := by
  cases document <;> cases other <;> first | rfl | exact absurd h (by decide)

theorem isAbsolute_fileName (document : Medium.Document) :
    Path.isAbsolute (fileName document) = false := by
  cases document <;> decide +kernel

/-- The path of a name that does not begin at the root shows the name. -/
theorem join_inj {base name other : String} (hname : Path.isAbsolute name = false)
    (hother : Path.isAbsolute other = false) (h : Path.join base name = Path.join base other) :
    name = other := by
  rw [Path.join, Path.join, hname, hother] at h
  split at h
  · exact h
  · split at h
    · exact (String.append_right_inj _).1 h
    · exact (String.append_right_inj _).1 h

theorem keyOf_inj {keyPrefix : String} {document other : Medium.Document}
    (h : keyOf keyPrefix document = keyOf keyPrefix other) : document = other := by
  simp only [keyOf] at h
  split at h
  · exact fileName_inj h
  · exact fileName_inj ((String.append_right_inj _).1 h)

theorem puts_file (path : String) (world : Host.World) (document : Medium.Document)
    (text : Option String) : (directory path).Puts world document text
      (world.putFile (Path.join path (fileName document)) text) where
  self := Function.update_self ..
  other _ hne := Function.update_of_ne (fun h =>
    hne (fileName_inj (join_inj (isAbsolute_fileName _) (isAbsolute_fileName _) h))) ..
  issued := List.Subset.refl _

theorem same_temporary (path : String) (world : Host.World) (text : Option String) :
    (directory path).Same world (world.putFile (Path.join path temporaryName) text) where
  text document := Function.update_of_ne (fun h => by
    have hname := join_inj (isAbsolute_fileName document) (by decide +kernel) h
    cases document <;> exact absurd hname (by decide)) ..
  issued := List.Subset.refl _

theorem puts_object (name keyPrefix : String) (world : Host.World) (document : Medium.Document)
    (text : Option String) : (bucket name keyPrefix).Puts world document text
      (world.putObject name (keyOf keyPrefix document) text) where
  self := by simp [text?, Host.World.putObject]
  other other hne := by
    have hkey : keyOf keyPrefix other ≠ keyOf keyPrefix document := fun h => hne (keyOf_inj h)
    simp [text?, Host.World.putObject, hkey]
  issued := List.Subset.refl _

/-! ## Directories -/

theorem drives_attempt {α : Type} {cause : String → StateError} {what : String}
    {operation : Program Host.calls (Except FileFault α)} {result : Except StateError α}
    (h : Drives (Host.Responds clock faults) (attempt cause what operation).run world exchanges
      result after) : ∃ answer, Drives (Host.Responds clock faults) operation world exchanges answer
        after ∧ result = answer.mapError fun fault => cause s!"{what}: {fault.text}" := by
  rw [attempt, drives_bindLift_iff] at h
  obtain ⟨answer, mid, first, second, rfl, hoperation, h⟩ := h
  cases answer with
  | ok value =>
    obtain ⟨rfl, rfl, rfl⟩ := drives_done_iff.1 h
    exact ⟨.ok value, by rwa [List.append_nil], rfl⟩
  | error fault =>
    obtain ⟨rfl, rfl, rfl⟩ := drives_done_iff.1 h
    exact ⟨.error fault, by rwa [List.append_nil], rfl⟩

theorem drives_ensureDirectory {path : String} {result : Except StateError Unit}
    (h : Drives (Host.Responds clock faults) (ensureDirectory path).run world exchanges result
      after) :
    after = world ∧ (result = .ok () ∨ faults ∧ ∃ cause, result = .error cause) := by
  rw [ensureDirectory, drives_bindLift_iff] at h
  obtain ⟨found, mid, first, second, rfl, hfound, h⟩ := h
  obtain ⟨-, -, rfl⟩ := drives_request_iff.1 hfound
  cases found with
  | true =>
    obtain ⟨-, rfl, rfl⟩ := drives_done_iff.1 h
    exact ⟨rfl, .inl rfl⟩
  | false =>
    obtain ⟨answer, hcreate, rfl⟩ := drives_attempt h
    obtain ⟨-, ⟨rfl, rfl⟩ | ⟨possible, ⟨fault, rfl⟩, rfl⟩⟩ := drives_request_iff.1 hcreate
    · exact ⟨rfl, .inl rfl⟩
    · exact ⟨rfl, .inr ⟨possible, _, rfl⟩⟩

theorem drives_readFile {path : String} {answer : Except StateError (Option String)}
    (h : Drives (Host.Responds clock faults) (readFile path document) world exchanges answer
      after) :
    after = world ∧ Finds ((directory path).text? world document) answer := by
  rw [readFile, drives_bind_iff] at h
  obtain ⟨found, mid, first, second, rfl, hread, hnext⟩ := h
  obtain ⟨-, rfl, hfound⟩ := drives_request_iff.1 hread
  rcases hfound with ⟨text, rfl, htext⟩ | ⟨fault, rfl, hfault⟩
  · obtain ⟨-, rfl, rfl⟩ := drives_done_iff.1 hnext
    exact ⟨rfl, .inl (congrArg Except.ok htext.symm)⟩
  · cases habsence : fault.isAbsence with
    | true =>
      simp only [habsence, if_true] at hnext
      obtain ⟨-, rfl, rfl⟩ := drives_done_iff.1 hnext
      exact ⟨rfl, .inl (congrArg Except.ok (hfault habsence).symm)⟩
    | false =>
      simp only [habsence] at hnext
      cases document <;> obtain ⟨-, rfl, rfl⟩ := drives_done_iff.1 hnext <;>
        exact ⟨rfl, .inr ⟨_, rfl⟩⟩

/-- What is answered to a change of a document. -/
def Changes (faults : Prop) (location : Location) (world : Host.World)
    (document : Medium.Document) (text : Option String) (answer : Except StateError Unit)
    (after : Host.World) : Prop :=
  answer = .ok () ∧ location.Puts world document text after ∨
    faults ∧ (∃ cause, answer = .error cause) ∧ location.Same world after

theorem drives_writeFile {path text : String} {answer : Except StateError Unit}
    (h : Drives (Host.Responds clock faults) (writeFile path document text).run world exchanges
      answer after) : Changes faults (directory path) world document (some text) answer after := by
  rw [writeFile, drives_bindExcept_iff] at h
  rcases h with ⟨cause, hensure, rfl⟩ | ⟨⟨⟩, mid, first, second, rfl, hensure, h⟩
  · obtain ⟨rfl, ⟨⟨⟩⟩ | ⟨possible, -⟩⟩ := drives_ensureDirectory hensure
    exact .inr ⟨possible, ⟨cause, rfl⟩, .refl ..⟩
  obtain ⟨rfl, -⟩ := drives_ensureDirectory hensure
  cases document with
  | lock =>
    obtain ⟨answer, hwrite, rfl⟩ := drives_attempt h
    obtain ⟨-, ⟨rfl, rfl⟩ | ⟨possible, ⟨fault, rfl⟩, rfl⟩⟩ := drives_request_iff.1 hwrite
    · exact .inl ⟨rfl, puts_file path _ .lock _⟩
    · exact .inr ⟨possible, ⟨_, rfl⟩, .refl ..⟩
  | state =>
    rw [drives_bindExcept_iff] at h
    rcases h with ⟨cause, hwrite, rfl⟩ | ⟨⟨⟩, mid, first, second, rfl, hwrite, h⟩
    · obtain ⟨answer, hwrite, hanswer⟩ := drives_attempt hwrite
      obtain ⟨-, ⟨rfl, rfl⟩ | ⟨possible, -, rfl⟩⟩ := drives_request_iff.1 hwrite
      · cases hanswer
      · exact .inr ⟨possible, ⟨cause, rfl⟩, .refl ..⟩
    obtain ⟨answer, hwrite, hanswer⟩ := drives_attempt hwrite
    obtain ⟨-, ⟨rfl, rfl⟩ | ⟨-, ⟨fault, rfl⟩, -⟩⟩ := drives_request_iff.1 hwrite
    · obtain ⟨answer, hrename, rfl⟩ := drives_attempt h
      obtain ⟨-, ⟨found, hfound, rfl, rfl⟩ | ⟨hnone, ⟨fault, rfl⟩, rfl⟩⟩ :=
        drives_request_iff.1 hrename
      · have htext : found = text := by
          simp only [Host.World.putFile, Function.update_self] at hfound
          exact (Option.some.inj hfound).symm
        subst htext
        exact .inl ⟨rfl, ((same_temporary ..).puts (puts_file path _ .state _)).same
          (same_temporary ..)⟩
      · refine .inr ⟨hnone.resolve_left ?_, ⟨_, rfl⟩, same_temporary ..⟩
        simp [Host.World.putFile]
    · cases hanswer

theorem drives_removeFile {path : String} {answer : Except StateError Unit}
    (h : Drives (Host.Responds clock faults) (removeFile path document) world exchanges answer
      after) : Changes faults (directory path) world document none answer after := by
  rw [removeFile, drives_bind_iff] at h
  obtain ⟨removed, mid, first, second, rfl, hremove, hnext⟩ := h
  obtain ⟨-, ⟨rfl, rfl⟩ | ⟨rfl, fault, rfl, hfault⟩⟩ := drives_request_iff.1 hremove
  · obtain ⟨-, rfl, rfl⟩ := drives_done_iff.1 hnext
    exact .inl ⟨rfl, puts_file path world document none⟩
  · cases habsence : fault.isAbsence with
    | true =>
      simp only [habsence, if_true] at hnext hfault
      obtain ⟨-, rfl, rfl⟩ := drives_done_iff.1 hnext
      exact .inl ⟨rfl, hfault, fun _ _ => rfl, List.Subset.refl _⟩
    | false =>
      simp only [habsence] at hnext hfault
      cases document <;> obtain ⟨-, rfl, rfl⟩ := drives_done_iff.1 hnext <;>
        exact .inr ⟨hfault, ⟨_, rfl⟩, .refl ..⟩

theorem drives_pathExists {path : String} {answer : Except StateError Bool}
    (h : Drives (Host.Responds clock faults)
      (Except.ok <$> Host.pathExists (Path.join path (fileName document))) world exchanges answer
      after) : after = world ∧ ∀ found, answer = .ok found →
        ((directory path).text? world document).isSome → found = true := by
  rw [map_eq_pure_bind, drives_bind_iff] at h
  obtain ⟨there, mid, first, second, rfl, hthere, h⟩ := h
  obtain ⟨-, hfound, rfl⟩ := drives_request_iff.1 hthere
  obtain ⟨-, rfl, rfl⟩ := drives_done_iff.1 h
  exact ⟨rfl, fun found hanswer hsome => Except.ok.inj hanswer ▸ hfound hsome⟩

/-! A host on which nothing fails does what is asked. -/

theorem responds_read {path text : String}
    (h : (directory path).text? world document = some text) :
    (directory path).Responds clock faults world (.read document) (.ok (some text)) world :=
  ⟨_, .ask ⟨rfl, .inl ⟨text, rfl, h⟩⟩ (.done _ _)⟩

theorem responds_write_lock (path text : String) :
    (directory path).Responds clock faults world (.write .lock text) (.ok ())
      (world.putFile (Path.join path (fileName .lock)) (some text)) := by
  have hexists : Host.Responds clock faults world (.pathExists path) true world :=
    ⟨fun _ => rfl, rfl⟩
  exact ⟨_, .ask hexists (.ask (.inl ⟨rfl, rfl⟩) (.done _ _))⟩

theorem responds_remove (path : String) :
    (directory path).Responds clock faults world (.remove document) (.ok ())
      (world.putFile (Path.join path (fileName document)) none) :=
  ⟨_, .ask (.inl ⟨rfl, rfl⟩) (.done _ _)⟩

/-! ## Buckets -/

theorem drives_askBucket {name keyPrefix what : String} {action : ObjectAction}
    {result : Except StateError ObjectAnswer}
    (h : Drives (Host.Responds clock faults) (askBucket name keyPrefix document action what).run
      world exchanges result after) : ∃ answer,
        Host.ObjectResponds faults world name (keyOf keyPrefix document) action answer after ∧
          result = answer.mapError fun fault => .objectStore s!"S3 {what} error: {fault}" := by
  rw [askBucket, drives_bindLift_iff] at h
  obtain ⟨answer, mid, first, second, rfl, hasked, h⟩ := h
  obtain ⟨-, hanswer⟩ := drives_request_iff.1 hasked
  cases answer <;> obtain ⟨-, rfl, rfl⟩ := drives_done_iff.1 h <;> exact ⟨_, hanswer, rfl⟩

theorem drives_getObject {name keyPrefix : String} {answer : Except StateError (Option String)}
    (h : Drives (Host.Responds clock faults) (getObject name keyPrefix document).run world exchanges
      answer after) :
    after = world ∧ Finds ((bucket name keyPrefix).text? world document) answer := by
  rw [getObject, drives_bindExcept_iff] at h
  rcases h with ⟨cause, hasked, rfl⟩ | ⟨reply, mid, first, second, rfl, hasked, h⟩
  · obtain ⟨answer, ⟨rfl, -⟩, -⟩ := drives_askBucket hasked
    exact ⟨rfl, .inr ⟨cause, rfl⟩⟩
  obtain ⟨_ | reply, ⟨rfl, hreply⟩, hresult⟩ := drives_askBucket hasked
  · cases hresult
  cases hresult
  specialize hreply _ rfl
  rw [text?]
  cases hobject : mid.objects name (keyOf keyPrefix document) with
  | none =>
    rw [hobject] at hreply
    subst hreply
    obtain ⟨-, rfl, rfl⟩ := drives_done_iff.1 h
    exact ⟨rfl, .inl rfl⟩
  | some text =>
    rw [hobject] at hreply
    obtain ⟨bytes, rfl, htext⟩ := hreply
    cases hbytes : String.fromUTF8? bytes with
    | none =>
      simp only [hbytes] at h
      obtain ⟨-, rfl, rfl⟩ := drives_done_iff.1 h
      exact ⟨rfl, .inr ⟨_, rfl⟩⟩
    | some found =>
      simp only [hbytes] at h
      obtain ⟨-, rfl, rfl⟩ := drives_done_iff.1 h
      exact ⟨rfl, .inl (by rw [htext found hbytes])⟩

theorem drives_changeObject {name keyPrefix what : String} {action : ObjectAction}
    {text : Option String} {answer : Except StateError Unit}
    (h : Drives (Host.Responds clock faults)
      (do let _ ← askBucket name keyPrefix document action what :
        ExceptT StateError (Program Host.calls) Unit).run world exchanges answer after)
    (haction : ∀ answer after,
      Host.ObjectResponds faults world name (keyOf keyPrefix document) action answer after →
        Attempts faults world (world.putObject name (keyOf keyPrefix document) text)
          (answer.map fun _ => ()) after) :
    Changes faults (bucket name keyPrefix) world document text answer after := by
  rw [drives_bindExcept_iff] at h
  rcases h with ⟨cause, hasked, rfl⟩ | ⟨reply, mid, first, second, rfl, hasked, h⟩
  · obtain ⟨answer, hresponds, hresult⟩ := drives_askBucket hasked
    rcases haction _ _ hresponds with ⟨hanswer, -⟩ | ⟨possible, -, rfl⟩
    · cases answer <;> cases hanswer
      cases hresult
    · exact .inr ⟨possible, ⟨cause, rfl⟩, .refl ..⟩
  · obtain ⟨answer, hresponds, hresult⟩ := drives_askBucket hasked
    obtain ⟨-, rfl, rfl⟩ := drives_done_iff.1 h
    rcases haction _ _ hresponds with ⟨-, rfl⟩ | ⟨-, ⟨cause, hanswer⟩, -⟩
    · exact .inl ⟨rfl, puts_object ..⟩
    · cases answer <;> cases hanswer
      cases hresult

theorem drives_putObject {name keyPrefix text : String} {answer : Except StateError Unit}
    (h : Drives (Host.Responds clock faults) (inBucket name keyPrefix (.write document text)) world
      exchanges answer after) :
    Changes faults (bucket name keyPrefix) world document (some text) answer after :=
  drives_changeObject h fun _ _ h => h

theorem drives_deleteObject {name keyPrefix : String} {answer : Except StateError Unit}
    (h : Drives (Host.Responds clock faults) (inBucket name keyPrefix (.remove document)) world
      exchanges answer after) :
    Changes faults (bucket name keyPrefix) world document none answer after :=
  drives_changeObject h fun _ _ h => h

theorem drives_hasObject {name keyPrefix : String} {answer : Except StateError Bool}
    (h : Drives (Host.Responds clock faults) (hasObject name keyPrefix document).run world exchanges
      answer after) : after = world ∧ ∀ found, answer = .ok found →
        ((bucket name keyPrefix).text? world document).isSome → found = true := by
  rw [hasObject, drives_bindExcept_iff] at h
  rcases h with ⟨cause, hasked, rfl⟩ | ⟨reply, mid, first, second, rfl, hasked, h⟩
  · obtain ⟨answer, ⟨-, rfl⟩, -⟩ := drives_askBucket hasked
    exact ⟨rfl, nofun⟩
  obtain ⟨_ | reply, ⟨hreply, rfl⟩, hresult⟩ := drives_askBucket hasked
  · cases hresult
  cases hresult
  rcases hreply with hreply | ⟨cause, ⟨⟩⟩
  rw [text?]
  cases hobject : (mid.objects name (keyOf keyPrefix document)).isSome with
  | false =>
    rw [hobject] at hreply
    cases hreply
    obtain ⟨-, -, rfl⟩ := drives_done_iff.1 h
    exact ⟨rfl, fun _ _ => nofun⟩
  | true =>
    rw [hobject] at hreply
    cases hreply
    obtain ⟨-, rfl, rfl⟩ := drives_done_iff.1 h
    exact ⟨rfl, fun found hfound _ => (Except.ok.inj hfound).symm⟩

/-! ## Media -/

/-- Whether a medium keeps what is kept at a location of a host, and has given out no other ids. -/
structure Mirrors (location : Location) (world : Host.World) (kept : Medium.World) : Prop where
  text : ∀ document, kept.text? document = location.text? world document
  issued : kept.issued ⊆ world.issued

variable {kept : Medium.World}

theorem Mirrors.same (h : location.Mirrors world kept) (same : location.Same world after) :
    location.Mirrors after kept where
  text document := (h.text document).trans (same.text document).symm
  issued := List.Subset.trans h.issued same.issued

theorem Mirrors.puts {text : Option String} (h : location.Mirrors world kept)
    (puts : location.Puts world document text after) :
    location.Mirrors after (kept.put document text) where
  text other := by
    by_cases hother : other = document
    · subst hother
      rw [puts.self, Medium.World.text?_put_self]
    · rw [puts.other other hother, Medium.World.text?_put_of_ne kept text hother, h.text]
  issued := by
    rw [Medium.World.issued_put]
    exact List.Subset.trans h.issued puts.issued

theorem Mirrors.changes {text : Option String} {answer : Except StateError Unit}
    (h : location.Mirrors world kept)
    (changes : Changes faults location world document text answer after) :
    ∃ kept', Attempts faults kept (kept.put document text) answer kept' ∧
      location.Mirrors after kept' := by
  rcases changes with ⟨rfl, puts⟩ | ⟨possible, hcause, same⟩
  · exact ⟨_, .inl ⟨rfl, rfl⟩, h.puts puts⟩
  · exact ⟨_, .inr ⟨possible, hcause, rfl⟩, h.same same⟩

theorem drives_holderName {name : String}
    (h : Drives (Host.Responds clock faults) holderName world exchanges name after) :
    location.Same world after := by
  obtain ⟨host, mid, _, _, -, hhost, hrest⟩ := drives_bind_iff.1 h
  obtain ⟨-, rfl⟩ := drives_request_iff.1 hhost
  obtain ⟨process, mid', _, _, -, hprocess, hrest'⟩ := drives_bind_iff.1 hrest
  obtain ⟨-, rfl⟩ := drives_request_iff.1 hprocess
  obtain ⟨id, mid'', _, _, -, hid, hdone⟩ := drives_bind_iff.1 hrest'
  obtain ⟨-, -, rfl⟩ := drives_request_iff.1 hid
  obtain ⟨-, -, rfl⟩ := drives_done_iff.1 hdone
  exact ⟨fun _ => by cases location <;> rfl, List.subset_cons_self ..⟩

/-- What a location does for a request, a medium that keeps the same answers to it. -/
theorem Mirrors.answer {request : Medium.Request} {answer : Medium.Answer request}
    (h : location.Mirrors world kept)
    (answered : location.Responds clock faults world request answer after) :
    ∃ kept', Medium.Responds clock faults kept request answer kept' ∧
      location.Mirrors after kept' := by
  obtain ⟨exchanges, hdrives⟩ := answered
  cases request with
  | read document =>
    have hread : after = world ∧ Finds (location.text? world document) answer := by
      cases location with
      | directory path => exact drives_readFile hdrives
      | bucket name keyPrefix => exact drives_getObject hdrives
    obtain ⟨rfl, hfinds⟩ := hread
    exact ⟨kept, ⟨by rwa [h.text], rfl⟩, h⟩
  | write document text =>
    have hchanges : Changes faults location world document (some text) answer after := by
      cases location with
      | directory path => exact drives_writeFile hdrives
      | bucket name keyPrefix => exact drives_putObject hdrives
    exact h.changes hchanges
  | remove document =>
    have hchanges : Changes faults location world document none answer after := by
      cases location with
      | directory path => exact drives_removeFile hdrives
      | bucket name keyPrefix => exact drives_deleteObject hdrives
    exact h.changes hchanges
  | has document =>
    have hhas : after = world ∧ ∀ found, answer = .ok found →
        (location.text? world document).isSome → found = true := by
      cases location with
      | directory path => exact drives_pathExists hdrives
      | bucket name keyPrefix => exact drives_hasObject hdrives
    obtain ⟨rfl, hfound⟩ := hhas
    exact ⟨kept, ⟨by rwa [h.text], rfl⟩, h⟩
  | now =>
    have hnow : Drives (Host.Responds clock faults) Host.now world exchanges answer after := by
      cases location <;> exact hdrives
    obtain ⟨-, shown, rfl⟩ := drives_request_iff.1 hnow
    exact ⟨kept, ⟨shown, rfl⟩, h⟩
  | uniqueId =>
    have hid : Drives (Host.Responds clock faults) Host.uniqueId world exchanges answer after := by
      cases location <;> exact hdrives
    obtain ⟨-, fresh, rfl⟩ := drives_request_iff.1 hid
    refine ⟨_, ⟨fun hmem => fresh (h.issued hmem), rfl⟩, ?_, List.cons_subset_cons _ h.issued⟩
    cases location <;> exact h.text
  | holderName =>
    have hname : Drives (Host.Responds clock faults) holderName world exchanges answer after := by
      cases location <;> exact hdrives
    exact ⟨kept, rfl, h.same (drives_holderName hname)⟩

/-- What a store at a location does, a store on a medium that keeps the same does too. -/
theorem Mirrors.store {request : Store.Request} {answer : Store.Answer request}
    (h : location.Mirrors world kept)
    (hdrives : Drives (Host.Responds clock faults) (location.store request) world exchanges answer
      after) : ∃ kept' exchanges,
        Drives (Medium.Responds clock faults) (Store.onMedium request) kept exchanges answer kept' ∧
          location.Mirrors after kept' := by
  obtain ⟨exchanges, hdrives⟩ := drives_interpret_iff.1 ⟨exchanges, hdrives⟩
  obtain ⟨kept', hdrives', h'⟩ := hdrives.simulate (fun h answered => h.answer answered) h
  exact ⟨kept', exchanges, hdrives', h'⟩

/-- A medium that keeps what is kept at a location. -/
def view (location : Location) (world : Host.World) : Medium.World where
  state := location.text? world .state
  lock := location.text? world .lock
  issued := world.issued

theorem mirrors_view (location : Location) (world : Host.World) :
    location.Mirrors world (location.view world) where
  text document := by cases document <;> rfl
  issued := List.Subset.refl _

end Location

end Converge
