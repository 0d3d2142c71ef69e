import FlorenceServer.Api.Uploads

/-!
# The files of the upload calls

`ServiceOk` relates the upload calls, the jobs they submitted and the files on
disk.

* `ServiceOk.step`, `ServiceOk.run`: it holds at every point of a run;
* `ServiceOk.cleaning`: what a worker knows about the image it may remove.
-/

namespace FlorenceServer

open Runs JobRecord

variable {M : Type}

section Records

variable {cfg : SubmitConfig} {inputs : UploadInputs} {record : JobRecord M}

/-- The record that an upload call hands to `enqueue_record`. -/
def UploadInputs.Built (cfg : SubmitConfig) (inputs : UploadInputs)
    (record : JobRecord M) : Prop :=
  ∃ upload, inputs.check cfg = .ok upload ∧ inputs.env.write = .ok ∧
    record = upload.record (inputs.env.submitEnv cfg) (inputs.imagePath cfg upload)

theorem isUploadPath_imagePath
    (cfg : SubmitConfig) (inputs : UploadInputs) (upload : CheckedUpload) :
    IsUploadPath cfg.imagesDir inputs.env.id (inputs.imagePath cfg upload) :=
  ⟨_, guessExtension_mem _ _ _, rfl⟩

namespace UploadInputs.Built

theorem id_eq (h : inputs.Built cfg record) : record.id = inputs.env.id := by
  obtain ⟨upload, -, -, rfl⟩ := h
  rfl

theorem createdFile_eq (h : inputs.Built cfg record) :
    inputs.createdFile cfg = some record.imagePath := by
  obtain ⟨upload, hcheck, hwrite, rfl⟩ := h
  simp [UploadInputs.createdFile, hcheck, hwrite, WriteOutcome.leavesFile,
    CheckedUpload.record]

theorem isUploadPath (h : inputs.Built cfg record) :
    IsUploadPath cfg.imagesDir record.id record.imagePath := by
  obtain ⟨upload, -, -, rfl⟩ := h
  exact isUploadPath_imagePath cfg inputs upload

end UploadInputs.Built

theorem isUploadPath_createdFile
    {path : PathBuf} (h : inputs.createdFile cfg = some path) :
    IsUploadPath cfg.imagesDir inputs.env.id path := by
  unfold UploadInputs.createdFile at h
  split at h
  · split at h
    · cases h
      exact isUploadPath_imagePath _ _ _
    · cases h
  · cases h

/-- A call creates no file if it is refused, or if its write gets nowhere. -/
theorem createdFile_eq_none_iff :
    inputs.createdFile cfg = none ↔
      (∃ err, inputs.check cfg = .error err) ∨ inputs.env.write = .failed false := by
  unfold UploadInputs.createdFile
  cases hcheck : inputs.check cfg with
  | error err => simp
  | ok upload =>
      cases hwrite : inputs.env.write with
      | ok => simp [WriteOutcome.leavesFile]
      | failed created => cases created <;> simp [WriteOutcome.leavesFile]

/-- The handlers of a service build the records as `api/submit.rs` does. -/
theorem UploadInputs.Built.fromHandler
    (h : inputs.Built cfg record) :
    BuiltBySubmitHandler record := by
  obtain ⟨upload, hcheck, hwrite, rfl⟩ := h
  obtain ⟨_, -, hcheck⟩ := bind_eq_ok.mp hcheck
  obtain ⟨request, -, hcheck⟩ := bind_eq_ok.mp hcheck
  refine Or.inl ⟨cfg.toConfig, inputs.env.submitEnv cfg, request, ?_⟩
  rw [uploadedJobRecord_eq]
  refine bind_eq_ok.mpr ⟨upload, hcheck, bind_eq_ok.mpr ⟨inputs.imagePath cfg upload, ?_, rfl⟩⟩
  simp [saveUploadedImage, HandlerEnv.submitEnv, hwrite, bind, Except.bind, pure,
    Except.pure, UploadInputs.imagePath, uploadPath]

end Records

section Invariant

variable {cfg : SubmitConfig} {S S' : Service M}

/-- The ids that the upload calls draw are new, and no file is named after them. -/
def FreshIds (cfg : SubmitConfig) (S : Service M) : ServiceAction M → Prop
  | .openUpload _ env =>
      (∀ m < S.opened, ∀ inputs ∈ (S.uploads m).inputs, inputs.env.id ≠ env.id) ∧
      ∀ extension ∈ imageExtensions, uploadPath cfg.imagesDir env.id extension ∉ S.files
  | _ => True

instance (cfg : SubmitConfig) (S : Service M) (a : ServiceAction M) :
    Decidable (FreshIds cfg S a) := by
  cases a with
  | openUpload body env =>
      exact inferInstanceAs (Decidable
        ((∀ m < S.opened, ∀ inputs ∈ (S.uploads m).inputs, inputs.env.id ≠ env.id) ∧
        ∀ extension ∈ imageExtensions, uploadPath cfg.imagesDir env.id extension ∉ S.files))
  | _ => exact isTrue trivial

/-- The file of an upload call that its path must name, as long as no worker
may have removed it. -/
def UploadCall.expectedFile (cfg : SubmitConfig) (server : Server M) :
    UploadCall M → Option (Option PathBuf)
  | .reading _ | .saving _ _ => some none
  | .refused inputs _ => some (inputs.createdFile cfg)
  | .submitted inputs record =>
      if (server.calls record.id).isAccepted then none else some (inputs.createdFile cfg)
  | .idle | .dropped _ => none

/-- While no further job is accepted, a call says as much about its file as before. -/
theorem UploadCall.expectedFile_of_later
    {call : UploadCall M} {server server' : Server M} {file : Option PathBuf}
    (hkept : ∀ inputs record, call = .submitted inputs record →
      (server.calls record.id).isAccepted = true → (server'.calls record.id).isAccepted = true)
    (h : call.expectedFile cfg server' = some file) :
    call.expectedFile cfg server = some file := by
  cases call with
  | submitted inputs record =>
      simp only [UploadCall.expectedFile] at h ⊢
      by_cases hbefore : (server.calls record.id).isAccepted = true
      · rw [if_pos (hkept inputs record rfl hbefore)] at h
        cases h
      · rw [if_neg hbefore]
        split at h
        · cases h
        · exact h
  | _ => exact h

/-- What holds of the upload calls, their jobs and their files. -/
structure ServiceOk (cfg : SubmitConfig) (S : Service M) : Prop where
  tracks : ∃ lives, Tracks S.server lives
  unopened : ∀ n, S.opened ≤ n → S.uploads n = .idle
  distinct : ∀ n m inputs inputs', (S.uploads n).inputs = some inputs →
    (S.uploads m).inputs = some inputs' → inputs.env.id = inputs'.env.id → n = m
  checked : ∀ n inputs upload, S.uploads n = .saving inputs upload →
    inputs.check cfg = .ok upload
  built : ∀ n inputs record, S.uploads n = .submitted inputs record →
    inputs.Built cfg record ∧ (S.server.calls record.id).record = some record
  owner : ∀ id record, (S.server.calls id).record = some record →
    (∃ n inputs, S.uploads n = .submitted inputs record) ∨ record.inputKind = "local_path"
  files : ∀ n inputs file path, (S.uploads n).inputs = some inputs →
    (S.uploads n).expectedFile cfg S.server = some file →
    IsUploadPath cfg.imagesDir inputs.env.id path →
    (path ∈ S.files ↔ file = some path)

/-- What a step of the server can do to the files. -/
theorem filesAfter_cases (cfg : SubmitConfig) (S : Service M) (a : Action M) :
    S.filesAfter cfg a = S.files ∨
    ∃ w record restart, a = .worker w (.cleanup .removed) ∧
      S.server.loops w = .cleaning record restart ∧
      shouldDeleteImage cfg.toConfig record = true ∧
      S.filesAfter cfg a = S.files.erase record.imagePath := by
  unfold Service.filesAfter
  split
  · rename_i w removal
    split
    · rename_i record restart hloop
      split
      · rename_i hremoved
        unfold cleanupJobArtifacts at hremoved
        split at hremoved
        · rename_i hdelete
          cases hremoved
          exact Or.inr ⟨w, record, restart, rfl, hloop, hdelete, rfl⟩
        · cases hremoved
      · exact Or.inl rfl
    · exact Or.inl rfl
  · exact Or.inl rfl

namespace ServiceOk

/-- A step of one upload call in front of `enqueue_record`. -/
theorem ofUpload
    (hok : ServiceOk cfg S) {n : Nat} {inputs : UploadInputs} (call : UploadCall M)
    (S' : Service M)
    (hinputs : (S.uploads n).inputs = some inputs)
    (hflight : (S.uploads n).inFlight = true)
    (hsame : call.inputs = some inputs)
    (htracks : ∃ lives, Tracks S'.server lives)
    (hopened : S'.opened = S.opened)
    (huploads : S'.uploads = Function.update S.uploads n call)
    (hcalls : ∀ id, id ≠ inputs.env.id → S'.server.calls id = S.server.calls id)
    (hrecords : ∀ id record, (S'.server.calls id).record = some record →
      (S.server.calls id).record = some record ∨ call = .submitted inputs record)
    (hchecked : ∀ upload, call = .saving inputs upload → inputs.check cfg = .ok upload)
    (hbuilt : ∀ record, call = .submitted inputs record →
      inputs.Built cfg record ∧ (S'.server.calls record.id).record = some record)
    (hothers : ∀ path, ¬ IsUploadPath cfg.imagesDir inputs.env.id path →
      (path ∈ S'.files ↔ path ∈ S.files))
    (hfile : ∀ file path, call.expectedFile cfg S'.server = some file →
      IsUploadPath cfg.imagesDir inputs.env.id path →
      (path ∈ S'.files ↔ file = some path)) :
    ServiceOk cfg S' := by
  have hself : S'.uploads n = call := by
    rw [huploads, Function.update_self]
  have hother : ∀ m, m ≠ n → S'.uploads m = S.uploads m := by
    intro m hm
    rw [huploads, Function.update_of_ne hm]
  have hold : ∀ m, (S'.uploads m).inputs = (S.uploads m).inputs := by
    intro m
    by_cases hm : m = n
    · rw [hm, hself, hsame, hinputs]
    · rw [hother m hm]
  constructor
  · exact htracks
  · intro m hm
    rw [hopened] at hm
    have hidle := hok.unopened m hm
    have hne : m ≠ n := by
      rintro rfl
      rw [hidle] at hinputs
      cases hinputs
    rw [hother m hne, hidle]
  · intro m k i i' hi hi'
    rw [hold] at hi hi'
    exact hok.distinct m k i i' hi hi'
  · intro m i upload hm
    by_cases hmn : m = n
    · rw [hmn, hself] at hm
      rw [hm] at hsame
      cases hsame
      exact hchecked upload hm
    · rw [hother m hmn] at hm
      exact hok.checked m i upload hm
  · intro m i record hm
    by_cases hmn : m = n
    · rw [hmn, hself] at hm
      rw [hm] at hsame
      cases hsame
      exact hbuilt record hm
    · rw [hother m hmn] at hm
      obtain ⟨hb, hrecord⟩ := hok.built m i record hm
      have hne : record.id ≠ inputs.env.id := by
        rw [hb.id_eq]
        exact fun heq => hmn (hok.distinct m n i inputs (by rw [hm]; rfl) hinputs heq)
      rw [hcalls record.id hne]
      exact ⟨hb, hrecord⟩
  · intro id record hrecord
    rcases hrecords id record hrecord with hbefore | hnow
    · rcases hok.owner id record hbefore with ⟨m, i, hm⟩ | hlocal
      · have hmn : m ≠ n := by
          rintro rfl
          rw [hm] at hflight
          cases hflight
        exact Or.inl ⟨m, i, (hother m hmn).trans hm⟩
      · exact Or.inr hlocal
    · exact Or.inl ⟨n, inputs, hself.trans hnow⟩
  · intro m i file path hi hexpected hpath
    by_cases hmn : m = n
    · rw [hmn] at hi hexpected
      rw [hself] at hi hexpected
      rw [hsame] at hi
      cases hi
      exact hfile file path hexpected hpath
    · rw [hother m hmn] at hi hexpected
      have hids : i.env.id ≠ inputs.env.id :=
        fun heq => hmn (hok.distinct m n i inputs hi hinputs heq)
      have hforeign : ¬ IsUploadPath cfg.imagesDir inputs.env.id path :=
        fun h => hids (hpath.id_unique h)
      rw [hothers path hforeign]
      refine hok.files m i file path hi (UploadCall.expectedFile_of_later ?_ hexpected) hpath
      intro j record hm
      rw [hm] at hi
      cases hi
      rw [hcalls record.id (by rw [(hok.built m i record hm).1.id_eq]; exact hids)]
      exact id

/-- A step of the server that leaves the upload calls alone. -/
theorem ofServer
    (hok : ServiceOk cfg S)
    (htracks : ∃ lives, Tracks S'.server lives)
    (hopened : S'.opened = S.opened)
    (huploads : S'.uploads = S.uploads)
    (hkept : ∀ id record, (S.server.calls id).record = some record →
      (S'.server.calls id).record = some record)
    (hrecords : ∀ id record, (S'.server.calls id).record = some record →
      (S.server.calls id).record = some record ∨ record.inputKind = "local_path")
    (haccepted : ∀ id, (S.server.calls id).isAccepted = true →
      (S'.server.calls id).isAccepted = true)
    (hfiles : ∀ n inputs file path, (S.uploads n).inputs = some inputs →
      (S.uploads n).expectedFile cfg S.server = some file →
      IsUploadPath cfg.imagesDir inputs.env.id path → (path ∈ S'.files ↔ path ∈ S.files)) :
    ServiceOk cfg S' := by
  constructor
  · exact htracks
  · rw [hopened, huploads]
    exact hok.unopened
  · rw [huploads]
    exact hok.distinct
  · rw [huploads]
    exact hok.checked
  · intro n inputs record hn
    rw [huploads] at hn
    obtain ⟨hb, hrecord⟩ := hok.built n inputs record hn
    exact ⟨hb, hkept _ _ hrecord⟩
  · intro id record hrecord
    rw [huploads]
    rcases hrecords id record hrecord with hbefore | hlocal
    · exact hok.owner id record hbefore
    · exact Or.inr hlocal
  · intro n inputs file path hinputs hexpected hpath
    rw [huploads] at hinputs hexpected
    have hbefore : (S.uploads n).expectedFile cfg S.server = some file :=
      UploadCall.expectedFile_of_later (fun _ record _ => haccepted record.id) hexpected
    rw [hfiles n inputs file path hinputs hbefore hpath]
    exact hok.files n inputs file path hinputs hbefore hpath

/-- The worker that is about to clean up holds the finished job of an upload call,
whose path it will remove. -/
theorem cleaning
    (hok : ServiceOk cfg S) {w : Nat} {record : JobRecord M} {restart : Bool}
    (hloop : S.server.loops w = .cleaning record restart) :
    record.Terminal ∧ (S.server.calls record.id).isAccepted = true ∧
    (shouldDeleteImage cfg.toConfig record = true →
      ∃ n inputs submitted, S.uploads n = .submitted inputs submitted ∧
        submitted.id = record.id ∧ inputs.createdFile cfg = some record.imagePath) := by
  obtain ⟨lives, htracks⟩ := hok.tracks
  have hheld : (S.server.loops w).held = some (record.id, .cleaning record) := by
    rw [hloop]
    rfl
  obtain ⟨submitted, hstage, hid⟩ := htracks.stage_of_held hheld
  have hlife := (htracks record.id).2
  simp only [Life.Ok, hstage] at hlife
  obtain ⟨-, -, hfinal, -⟩ := hlife
  have hcall : S.server.calls record.id = .ended submitted (Stage.accepted submitted.id) := by
    rw [(htracks record.id).1.call, hstage]
    rfl
  refine ⟨hfinal.terminal, by rw [hcall]; rfl, fun hdelete => ?_⟩
  rcases hok.owner record.id submitted (by rw [hcall]; rfl) with ⟨n, inputs, hn⟩ | hlocal
  · have hpath := hfinal.sameSubmission.imagePath
    rw [hpath]
    exact ⟨n, inputs, submitted, hn, hid, (hok.built n inputs submitted hn).1.createdFile_eq⟩
  · have hkind : record.inputKind = "local_path" :=
      hfinal.sameSubmission.inputKind.trans hlocal
    simp [shouldDeleteImage, hkind] at hdelete

theorem openUpload
    (hok : ServiceOk cfg S)
    {body : List (Except String MultipartField)} {env : HandlerEnv}
    (hfresh : FreshIds cfg S (.openUpload body env)) :
    ServiceOk cfg
      { S.setUpload S.opened (.reading { workers := S.server.workers, body, env }) with
        opened := S.opened + 1 } := by
  obtain ⟨hids, hnames⟩ := hfresh
  have hother : ∀ m, m ≠ S.opened →
      (S.setUpload S.opened (.reading { workers := S.server.workers, body, env })).uploads m =
        S.uploads m := fun m hm => Function.update_of_ne hm _ _
  have hself :
      (S.setUpload S.opened (.reading { workers := S.server.workers, body, env })).uploads
        S.opened = .reading { workers := S.server.workers, body, env } :=
    Function.update_self _ _ _
  have hnew : ∀ m inputs, (S.uploads m).inputs = some inputs → inputs.env.id ≠ env.id := by
    intro m inputs hinputs
    by_cases hm : m < S.opened
    · exact hids m hm inputs hinputs
    · rw [hok.unopened m (by omega)] at hinputs
      cases hinputs
  constructor
  · exact hok.tracks
  · intro m hm
    change S.opened + 1 ≤ m at hm
    exact (hother m (by omega)).trans (hok.unopened m (by omega))
  · intro m k i i' hi hi' hid
    by_cases hm : m = S.opened <;> by_cases hk : k = S.opened
    · exact hm.trans hk.symm
    · rw [hm, hself] at hi
      rw [hother k hk] at hi'
      cases hi
      exact absurd hid.symm (hnew k i' hi')
    · rw [hother m hm] at hi
      rw [hk, hself] at hi'
      cases hi'
      exact absurd hid (hnew m i hi)
    · rw [hother m hm] at hi
      rw [hother k hk] at hi'
      exact hok.distinct m k i i' hi hi' hid
  · intro m inputs upload hm
    by_cases hmn : m = S.opened
    · rw [hmn, hself] at hm
      cases hm
    · rw [hother m hmn] at hm
      exact hok.checked m inputs upload hm
  · intro m inputs record hm
    by_cases hmn : m = S.opened
    · rw [hmn, hself] at hm
      cases hm
    · rw [hother m hmn] at hm
      exact hok.built m inputs record hm
  · intro id record hrecord
    rcases hok.owner id record hrecord with ⟨m, inputs, hm⟩ | hlocal
    · have hmn : m ≠ S.opened := by
        rintro rfl
        rw [hok.unopened S.opened (Nat.le_refl _)] at hm
        cases hm
      exact Or.inl ⟨m, inputs, (hother m hmn).trans hm⟩
    · exact Or.inr hlocal
  · intro m inputs file path hinputs hexpected hpath
    by_cases hmn : m = S.opened
    · rw [hmn, hself] at hinputs hexpected
      cases hinputs
      cases hexpected
      obtain ⟨extension, hextension, rfl⟩ := hpath
      exact ⟨fun hmem => absurd hmem (hnames extension hextension), nofun⟩
    · rw [hother m hmn] at hinputs hexpected
      exact hok.files m inputs file path hinputs hexpected hpath

/-- A call that has not written its image has no file. -/
theorem not_mem_of_inFlight
    (hok : ServiceOk cfg S) {n : Nat} {inputs : UploadInputs} {path : PathBuf}
    (hinputs : (S.uploads n).inputs = some inputs)
    (hflight : (S.uploads n).inFlight = true)
    (hpath : IsUploadPath cfg.imagesDir inputs.env.id path) :
    path ∉ S.files := by
  have hexpected : (S.uploads n).expectedFile cfg S.server = some none := by
    cases hn : S.uploads n with
    | reading i => rfl
    | saving i upload => rfl
    | _ =>
        rw [hn] at hflight
        cases hflight
  intro hmem
  cases (hok.files n inputs none path hinputs hexpected hpath).mp hmem

/-- A call that stays in front of `enqueue_record` and creates no file. -/
theorem setUpload
    (hok : ServiceOk cfg S) {n : Nat} {inputs : UploadInputs} (call : UploadCall M)
    (hinputs : (S.uploads n).inputs = some inputs)
    (hflight : (S.uploads n).inFlight = true)
    (hsame : call.inputs = some inputs)
    (hchecked : ∀ upload, call = .saving inputs upload → inputs.check cfg = .ok upload)
    (hsubmitted : call.isSubmitted = false)
    (hfile : ∀ file, call.expectedFile cfg S.server = some file → file = none) :
    ServiceOk cfg (S.setUpload n call) := by
  refine hok.ofUpload call (S.setUpload n call) hinputs hflight hsame hok.tracks rfl rfl
    (fun _ _ => rfl) (fun _ _ h => Or.inl h) hchecked ?_ (fun _ _ => Iff.rfl) ?_
  · rintro record rfl
    cases hsubmitted
  · intro file path hexpected hpath
    rw [hfile file hexpected]
    exact ⟨fun hmem => absurd hmem (hok.not_mem_of_inFlight hinputs hflight hpath), nofun⟩

/-- A call that ends with its write, whether that has created the file or not. -/
theorem endWrite
    (hok : ServiceOk cfg S) {n : Nat} {inputs : UploadInputs} {upload : CheckedUpload}
    {created : Bool} (call : UploadCall M)
    (hcall : S.uploads n = .saving inputs upload)
    (hsame : call.inputs = some inputs)
    (hflying : call.inFlight = false)
    (hsubmitted : call.isSubmitted = false)
    (hfile : ∀ file, call.expectedFile cfg S.server = some file →
      file = if created then some (inputs.imagePath cfg upload) else none) :
    ServiceOk cfg
      ((S.setFile (inputs.imagePath cfg upload) created).setUpload n call) := by
  have hinputs : (S.uploads n).inputs = some inputs := by
    rw [hcall]
    rfl
  have hflight : (S.uploads n).inFlight = true := by
    rw [hcall]
    rfl
  set S' := (S.setFile (inputs.imagePath cfg upload) created).setUpload n call
  have hserver : S'.server = S.server := Service.setFile_server _ _ _
  have huploads : S'.uploads = Function.update S.uploads n call :=
    Service.setFile_setUpload _ _ _ _ _
  have hmem : ∀ path, path ∈ S'.files ↔
      path ∈ S.files ∨ created = true ∧ path = inputs.imagePath cfg upload :=
    fun path => Service.mem_setFile _ _ _ _
  refine hok.ofUpload call S' hinputs hflight hsame ?_ (Service.setFile_opened _ _ _) huploads ?_ ?_
    ?_ ?_ ?_ ?_
  · rw [hserver]
    exact hok.tracks
  · intro id _
    rw [hserver]
  · intro id record hrecord
    rw [hserver] at hrecord
    exact Or.inl hrecord
  · rintro upload rfl
    cases hflying
  · rintro record rfl
    cases hsubmitted
  · intro path hforeign
    have hne : path ≠ inputs.imagePath cfg upload := by
      rintro rfl
      exact hforeign (isUploadPath_imagePath cfg inputs upload)
    simp [hmem, hne]
  · intro file path hexpected hpath
    rw [hserver] at hexpected
    have hnot := hok.not_mem_of_inFlight hinputs hflight hpath
    rw [hfile file hexpected, hmem]
    cases created <;> simp [hnot, eq_comm]

/-- The image is written and the record submitted. -/
theorem save
    (hok : ServiceOk cfg S) {n : Nat} {inputs : UploadInputs} {upload : CheckedUpload}
    {server : Server M} {record : JobRecord M}
    (hcall : S.uploads n = .saving inputs upload)
    (hsubmit : S.server.submit record = some server)
    (hbuilt : inputs.Built cfg record)
    (hpath : record.imagePath = inputs.imagePath cfg upload) :
    ServiceOk cfg
      { server := server
        files := insert (inputs.imagePath cfg upload) S.files
        opened := S.opened
        uploads := Function.update S.uploads n (.submitted inputs record) } := by
  have hinputs : (S.uploads n).inputs = some inputs := by
    rw [hcall]
    rfl
  have hflight : (S.uploads n).inFlight = true := by
    rw [hcall]
    rfl
  obtain ⟨lives, htracks⟩ := hok.tracks
  obtain ⟨-, hcalls⟩ := submit_calls hsubmit
  have hnow : server.calls record.id = .checking record := by
    rw [hcalls, Function.update_self]
  have hserver : S.server.step cfg.toConfig (.submit record) = some server := hsubmit
  refine hok.ofUpload (.submitted inputs record) _ hinputs hflight rfl ?_ rfl rfl ?_ ?_
    ?_ ?_ ?_ ?_
  · obtain ⟨lives', htracks', -⟩ := step_tracks htracks hserver
    exact ⟨lives', htracks'⟩
  · intro id hid
    change server.calls id = _
    rw [hcalls, Function.update_of_ne (by rw [hbuilt.id_eq]; exact hid)]
  · intro id current hcurrent
    change (server.calls id).record = some current at hcurrent
    by_cases hid : id = record.id
    · rw [hid, hnow] at hcurrent
      cases hcurrent
      exact Or.inr rfl
    · rw [hcalls, Function.update_of_ne hid] at hcurrent
      exact Or.inl hcurrent
  · intro checked hsaving
    cases hsaving
  · intro current hcurrent
    cases hcurrent
    refine ⟨hbuilt, ?_⟩
    change (server.calls record.id).record = some record
    rw [hnow]
    rfl
  · intro path hforeign
    have hne : path ≠ inputs.imagePath cfg upload := by
      rintro rfl
      exact hforeign (isUploadPath_imagePath cfg inputs upload)
    exact ⟨fun h => Finset.mem_of_mem_insert_of_ne h hne, Finset.mem_insert_of_mem⟩
  · intro file path hexpected hupload
    change (if (server.calls record.id).isAccepted = true then none
      else some (inputs.createdFile cfg)) = some file at hexpected
    rw [hnow, hbuilt.createdFile_eq, hpath] at hexpected
    cases hexpected
    have hnot := hok.not_mem_of_inFlight hinputs hflight hupload
    change path ∈ insert _ S.files ↔ _
    rw [Finset.mem_insert, Option.some.injEq, eq_comm]
    exact ⟨fun h => h.resolve_right hnot, Or.inl⟩

theorem submitLocal
    (hok : ServiceOk cfg S) {record : JobRecord M} {server : Server M}
    (hlocal : record.inputKind = "local_path")
    (hsubmit : S.server.submit record = some server) :
    ServiceOk cfg { S with server := server } := by
  obtain ⟨lives, htracks⟩ := hok.tracks
  obtain ⟨hfresh, hcalls⟩ := submit_calls hsubmit
  have hserver : S.server.step cfg.toConfig (.submit record) = some server := hsubmit
  refine hok.ofServer ?_ rfl rfl ?_ ?_ ?_ (fun _ _ _ _ _ _ _ => Iff.rfl)
  · obtain ⟨lives', htracks', -⟩ := step_tracks htracks hserver
    exact ⟨lives', htracks'⟩
  · intro id current hcurrent
    have hid : id ≠ record.id := by
      rintro rfl
      rw [hfresh] at hcurrent
      cases hcurrent
    change (server.calls id).record = some current
    rw [hcalls, Function.update_of_ne hid]
    exact hcurrent
  · intro id current hcurrent
    change (server.calls id).record = some current at hcurrent
    by_cases hid : id = record.id
    · rw [hid, hcalls, Function.update_self] at hcurrent
      cases hcurrent
      exact Or.inr hlocal
    · rw [hcalls, Function.update_of_ne hid] at hcurrent
      exact Or.inl hcurrent
  · intro id haccepted
    have hid : id ≠ record.id := by
      rintro rfl
      rw [hfresh] at haccepted
      cases haccepted
    change (server.calls id).isAccepted = true
    rw [hcalls, Function.update_of_ne hid]
    exact haccepted

theorem serverStep
    (hok : ServiceOk cfg S) {a : Action M} {server : Server M}
    (hsubmit : ∀ record, a ≠ .submit record)
    (hserver : S.server.step cfg.toConfig a = some server) :
    ServiceOk cfg { S with server := server, files := S.filesAfter cfg a } := by
  obtain ⟨lives, htracks⟩ := hok.tracks
  have hcalls := step_calls hsubmit hserver
  refine hok.ofServer ?_ rfl rfl ?_ ?_ (fun id => (hcalls id).2) ?_
  · obtain ⟨lives', htracks', -⟩ := step_tracks htracks hserver
    exact ⟨lives', htracks'⟩
  · intro id record hrecord
    exact (hcalls id).1.trans hrecord
  · intro id record hrecord
    exact Or.inl ((hcalls id).1.symm.trans hrecord)
  · intro n inputs file path hinputs hexpected hpath
    change path ∈ S.filesAfter cfg a ↔ path ∈ S.files
    rcases filesAfter_cases cfg S a with hsame | ⟨w, record, restart, -, hloop, hdelete, herase⟩
    · rw [hsame]
    · -- the removed file belongs to a call that was accepted, so not to this one
      obtain ⟨-, haccepted, hown⟩ := hok.cleaning hloop
      obtain ⟨m, inputs', submitted, hm, hid, hcreated⟩ := hown hdelete
      have hbuilt := (hok.built m inputs' submitted hm).1
      have hne : path ≠ record.imagePath := by
        rintro rfl
        have hremoved : record.imagePath = submitted.imagePath :=
          Option.some.inj (hcreated.symm.trans hbuilt.createdFile_eq)
        have hpath' := hbuilt.isUploadPath
        rw [← hremoved, hbuilt.id_eq] at hpath'
        have hnm := hok.distinct n m inputs inputs' hinputs (by rw [hm]; rfl)
          (hpath.id_unique hpath')
        rw [hnm, hm] at hexpected
        simp only [UploadCall.expectedFile, hid, haccepted, if_true] at hexpected
        cases hexpected
      rw [herase, Finset.mem_erase]
      exact ⟨fun h => h.2, fun h => ⟨hne, h⟩⟩

/-- What a step of an upload call, of a local submission or of the server keeps. -/
theorem step
    {a : ServiceAction M}
    (hok : ServiceOk cfg S)
    (hfresh : FreshIds cfg S a)
    (hstep : S.step cfg a = some S') :
    ServiceOk cfg S' := by
  cases Service.step_cases hstep with
  | openUpload body env => exact hok.openUpload hfresh
  | @check n inputs upload hcall hcheck =>
      refine hok.setUpload (.saving inputs upload) (by rw [hcall]; rfl) (by rw [hcall]; rfl)
        rfl ?_ rfl ?_
      · intro upload' h
        cases h
        exact hcheck
      · intro file h
        cases h
        rfl
  | @refuse n inputs err hcall hcheck =>
      have hnone : inputs.createdFile cfg = none := by
        rw [UploadInputs.createdFile, hcheck]
      refine hok.setUpload (.refused inputs err) (by rw [hcall]; rfl) (by rw [hcall]; rfl)
        rfl ?_ rfl ?_
      · intro upload h
        cases h
      · intro file h
        rw [UploadCall.expectedFile, Option.some.injEq] at h
        rw [← h, hnone]
  | @save n inputs upload server hcall hwrite hsubmit =>
      refine hok.save hcall hsubmit ?_ ?_
      · exact ⟨upload, hok.checked n _ _ hcall, hwrite, rfl⟩
      · rfl
  | @saveFailed n inputs upload created hcall hwrite =>
      have hfile : inputs.createdFile cfg =
          if created then some (inputs.imagePath cfg upload) else none := by
        rw [UploadInputs.createdFile, hok.checked n _ _ hcall, hwrite]
        rfl
      refine hok.endWrite (.refused inputs .internal) hcall rfl rfl rfl ?_
      intro file h
      rw [UploadCall.expectedFile, Option.some.injEq] at h
      rw [← h, hfile]
  | @dropReading n created inputs hcall =>
      refine hok.setUpload (.dropped inputs) (by rw [hcall]; rfl) (by rw [hcall]; rfl)
        rfl ?_ rfl ?_
      · intro upload h
        cases h
      · intro file h
        cases h
  | @dropSaving n created inputs upload hcall =>
      refine hok.endWrite (.dropped inputs) hcall rfl rfl rfl ?_
      intro file h
      cases h
  | @submitLocal env request record server hbuilt hsubmit =>
      exact hok.submitLocal (localPathJobRecord_inputKind hbuilt) hsubmit
  | @server a server hadmits hserver =>
      refine hok.serverStep ?_ hserver
      rintro record rfl
      cases hadmits

end ServiceOk

/-- A service whose process has just started; any files may be there. -/
structure Service.Started (cfg : SubmitConfig) (S : Service M) : Prop where
  server : FlorenceServer.Started cfg.toConfig S.server
  idle : ∀ n, S.uploads n = .idle

namespace ServiceOk

theorem start
    {S₀ : Service M} (hstarted : S₀.Started cfg) :
    ServiceOk cfg S₀ := by
  obtain ⟨lives, htracks, hstages⟩ := hstarted.server.tracks
  have hnone : ∀ n, (S₀.uploads n).inputs = none := by
    intro n
    rw [hstarted.idle n]
    rfl
  constructor
  · exact ⟨lives, htracks⟩
  · exact fun n _ => hstarted.idle n
  · intro n m inputs inputs' hinputs
    rw [hnone n] at hinputs
    cases hinputs
  · intro n inputs upload hn
    rw [hstarted.idle n] at hn
    cases hn
  · intro n inputs record hn
    rw [hstarted.idle n] at hn
    cases hn
  · intro id record hrecord
    rw [(htracks id).1.call] at hrecord
    rcases hstages id with hstage | hstage
    · rw [hstage] at hrecord
      cases hrecord
    · rw [hstage] at hrecord
      cases hrecord
  · intro n inputs file path hinputs
    rw [hnone n] at hinputs
    cases hinputs

theorem run
    {S₀ : Service M}
    (hstarted : S₀.Started cfg)
    (hrun : Run (Service.step cfg) (FreshIds cfg) S₀ S) :
    ServiceOk cfg S :=
  hrun.invariant (fun _ _ _ hfresh hstep hok => hok.step hfresh hstep) (start hstarted)

end ServiceOk
end Invariant

section Samples

/-- The default settings with a queue of one request. -/
def oneSlot : SubmitConfig where
  toConfig := { Config.default with queueSize := 1 }
  imageLimits := { maxImageWidth := 4096, maxImageHeight := 4096 }
  allowPrivateWebhookUrls := false

/-- The image crate on bitmaps of one pixel. -/
def bitmapCrate : ImageCrate where
  guessFormat := fun bytes => if bytes.take 2 = [66, 77] then some .bmp else none
  withGuessedFormat := fun _ => .ok ()
  intoDimensions := fun _ => .ok (1, 1)

def bitmapHandler (id : Uuid) : HandlerEnv where
  id := id
  now := 5
  images := bitmapCrate
  urls :=
    { parse := fun _ => .error "relative URL without a base"
      ipv6Text := fun _ => [] }
  sha256Hex := fun _ => "f7cbd816abfb19030d23b8de5435d0141443665a81ed5ba12114c70b5f53b610"
  write := .ok
  localImagePath := fun _ => .ok ["/", "srv", "inputs", "pixel.bmp"]
  readLocalImage := fun _ => .ok sampleImage

/-- A form with an image of these bytes. -/
def imageForm (bytes : List UInt8) : List (Except String MultipartField) :=
  [.ok
    { name := some "image"
      fileName := some "pixel.bmp"
      contentType := some "image/bmp"
      bytes := .ok bytes
      text := .error "invalid utf-8 sequence" }]

/-- Upload call `n` gets as far as its image lets it. -/
def uploadActions (n : Nat) (id : Uuid) (bytes : List UInt8) : List (ServiceAction String) :=
  [.openUpload (imageForm bytes) (bitmapHandler id), .readUpload n]

/-- The first upload takes the only place in the queue. -/
def acceptedActions : List (ServiceAction String) :=
  (readyActions 0).map .server ++ uploadActions 0 1 sampleImage ++
    [.saveUpload 0, .server (.call 1 .check), .server (.call 1 .insert),
      .server (.call 1 (.append .ok)), .server (.call 1 .send)]

def Service.initial (cfg : SubmitConfig) : Service M where
  server := Server.initial cfg.toConfig
  files := ∅
  opened := 0
  uploads := fun _ => .idle

theorem Service.started_initial (cfg : SubmitConfig) :
    (Service.initial cfg : Service M).Started cfg where
  server := FlorenceServer.started_initial cfg.toConfig
  idle := fun _ => rfl

/-- Execute a list of actions with fresh ids. -/
def runService (S : Service String) (actions : List (ServiceAction String)) :
    Option (Service String) :=
  runActions (Service.step oneSlot) (fun S a => decide (FreshIds oneSlot S a)) S actions

theorem exists_run_of_runService
    {S : Service String} {actions : List (ServiceAction String)} {test : Service String → Bool}
    (h : (runService S actions).any test = true) :
    ∃ S', Run (Service.step oneSlot) (FreshIds oneSlot) S S' ∧ test S' = true :=
  exists_run_of_any (fun _ _ hfresh => of_decide_eq_true hfresh) h

end Samples

end FlorenceServer
