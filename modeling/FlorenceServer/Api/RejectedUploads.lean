import FlorenceServer.Api.UploadFiles

/-!
# The image of a rejected upload

`submit_multipart_job` writes the image in the middle of a submission, and no
later refusal removes it.

* `rejected_upload_keeps_files_iff`: a rejected upload leaves the files as they
  were exactly if it is refused before its image is created.
-/

namespace FlorenceServer

open Runs

variable {M : Type}

section Rejections

variable {cfg : SubmitConfig} {S S' S₁ : Service M}

/-- The file of another upload call. -/
def Service.OtherImage (cfg : SubmitConfig) (S : Service M) (n : Nat) (path : PathBuf) : Prop :=
  ∃ m inputs, m ≠ n ∧ (S.uploads m).inputs = some inputs ∧
    IsUploadPath cfg.imagesDir inputs.env.id path

/-- A call that has started keeps its inputs, and only `openUpload` starts one. -/
theorem step_inputs
    {a : ServiceAction M}
    (hok : ServiceOk cfg S)
    (hstep : S.step cfg a = some S') (m : Nat) :
    (S'.uploads m).inputs = (S.uploads m).inputs ∨
    ((S.uploads m).inputs = none ∧ ∃ body env inputs, a = .openUpload body env ∧
      (S'.uploads m).inputs = some inputs ∧ inputs.env = env) := by
  have hkeep : ∀ {n : Nat} {call : UploadCall M},
      call.inputs = (S.uploads n).inputs → S'.uploads = Function.update S.uploads n call →
      (S'.uploads m).inputs = (S.uploads m).inputs := by
    intro n call hcall huploads
    rw [huploads]
    by_cases hm : m = n
    · rw [hm, Function.update_self, hcall]
    · rw [Function.update_of_ne hm]
  cases Service.step_cases hstep with
  | openUpload body env =>
      by_cases hm : m = S.opened
      · refine Or.inr ⟨?_, body, env, { workers := S.server.workers, body, env }, rfl, ?_, rfl⟩
        · rw [hm, hok.unopened S.opened (Nat.le_refl _)]
          rfl
        · simp [Service.setUpload, hm, UploadCall.inputs]
      · exact Or.inl (congrArg UploadCall.inputs (Function.update_of_ne hm _ _))
  | check hcall hcheck => exact Or.inl (hkeep (by rw [hcall]; rfl) rfl)
  | refuse hcall hcheck => exact Or.inl (hkeep (by rw [hcall]; rfl) rfl)
  | save hcall hwrite hsubmit => exact Or.inl (hkeep (by rw [hcall]; rfl) rfl)
  | saveFailed hcall hwrite =>
      exact Or.inl (hkeep (by rw [hcall]; rfl) (Service.setFile_setUpload _ _ _ _ _))
  | dropReading hcall => exact Or.inl (hkeep (by rw [hcall]; rfl) rfl)
  | dropSaving hcall =>
      exact Or.inl (hkeep (by rw [hcall]; rfl) (Service.setFile_setUpload _ _ _ _ _))
  | submitLocal hbuilt hsubmit => exact Or.inl rfl
  | server hadmits hserver => exact Or.inl rfl

/-- A step changes the file of one upload call at most. -/
theorem step_files
    {a : ServiceAction M}
    (hok : ServiceOk cfg S)
    (hstep : S.step cfg a = some S') {path : PathBuf}
    (hforeign : ∀ m inputs, (S.uploads m).inputs = some inputs →
      ¬ IsUploadPath cfg.imagesDir inputs.env.id path) :
    path ∈ S'.files ↔ path ∈ S.files := by
  have hne : ∀ n inputs upload, S.uploads n = .saving inputs upload →
      path ≠ inputs.imagePath cfg upload := by
    rintro n inputs upload hcall rfl
    exact hforeign n inputs (by rw [hcall]; rfl) (isUploadPath_imagePath cfg inputs upload)
  cases Service.step_cases hstep with
  | openUpload body env => exact Iff.rfl
  | check hcall hcheck => exact Iff.rfl
  | refuse hcall hcheck => exact Iff.rfl
  | save hcall hwrite hsubmit =>
      exact ⟨fun h => Finset.mem_of_mem_insert_of_ne h (hne _ _ _ hcall),
        Finset.mem_insert_of_mem⟩
  | saveFailed hcall hwrite =>
      refine (Service.mem_setFile _ _ _ _).trans ⟨?_, Or.inl⟩
      rintro (h | ⟨-, h⟩)
      · exact h
      · exact absurd h (hne _ _ _ hcall)
  | dropReading hcall => exact Iff.rfl
  | dropSaving hcall =>
      refine (Service.mem_setFile _ _ _ _).trans ⟨?_, Or.inl⟩
      rintro (h | ⟨-, h⟩)
      · exact h
      · exact absurd h (hne _ _ _ hcall)
  | submitLocal hbuilt hsubmit => exact Iff.rfl
  | @server a server hadmits hserver =>
      change path ∈ S.filesAfter cfg a ↔ path ∈ S.files
      rcases filesAfter_cases cfg S a with hsame | ⟨w, record, restart, -, hloop, hdelete, herase⟩
      · rw [hsame]
      · obtain ⟨-, -, hown⟩ := hok.cleaning hloop
        obtain ⟨n, inputs, submitted, hn, -, hcreated⟩ := hown hdelete
        have hpath : path ≠ record.imagePath := by
          rintro rfl
          exact hforeign n inputs (by rw [hn]; rfl) (isUploadPath_createdFile hcreated)
        rw [herase, Finset.mem_erase]
        exact ⟨fun h => h.2, fun h => ⟨hpath, h⟩⟩

/-- What has happened to the files since `S₁`. -/
structure FilesSince (cfg : SubmitConfig) (S₁ S : Service M) : Prop where
  ok : ServiceOk cfg S
  frame : ∀ path, (∀ m inputs, (S.uploads m).inputs = some inputs →
    ¬ IsUploadPath cfg.imagesDir inputs.env.id path) → (path ∈ S.files ↔ path ∈ S₁.files)
  fresh : ∀ m inputs path, (S₁.uploads m).inputs = none → (S.uploads m).inputs = some inputs →
    IsUploadPath cfg.imagesDir inputs.env.id path → path ∉ S₁.files

namespace FilesSince

theorem refl (hok : ServiceOk cfg S₁) : FilesSince cfg S₁ S₁ where
  ok := hok
  frame := fun _ _ => Iff.rfl
  fresh := by
    intro m inputs path hnone hinputs
    rw [hnone] at hinputs
    cases hinputs

theorem step
    {a : ServiceAction M}
    (hsince : FilesSince cfg S₁ S)
    (hfresh : FreshIds cfg S a)
    (hstep : S.step cfg a = some S') :
    FilesSince cfg S₁ S' where
  ok := hsince.ok.step hfresh hstep
  frame := by
    intro path hforeign
    have hbefore : ∀ m inputs, (S.uploads m).inputs = some inputs →
        ¬ IsUploadPath cfg.imagesDir inputs.env.id path := by
      intro m inputs hinputs
      rcases step_inputs hsince.ok hstep m with hsame | ⟨hnone, -⟩
      · exact hforeign m inputs (hsame.trans hinputs)
      · rw [hnone] at hinputs
        cases hinputs
    rw [step_files hsince.ok hstep hbefore]
    exact hsince.frame path hbefore
  fresh := by
    intro m inputs path hidle hinputs hpath
    rcases step_inputs hsince.ok hstep m with hsame | ⟨-, body, env, inputs', rfl, hnew, rfl⟩
    · rw [hsame] at hinputs
      exact hsince.fresh m inputs path hidle hinputs hpath
    · -- the id is new: no file of an earlier call, and no file at all, has its name
      rw [hnew, Option.some.injEq] at hinputs
      rw [← hinputs] at hpath
      obtain ⟨hids, hnames⟩ := hfresh
      have hforeign : ∀ k i, (S.uploads k).inputs = some i →
          ¬ IsUploadPath cfg.imagesDir i.env.id path := by
        intro k i hi hown
        by_cases hk : k < S.opened
        · exact hids k hk i hi (hown.id_unique hpath)
        · rw [hsince.ok.unopened k (by omega)] at hi
          cases hi
      rw [← hsince.frame path hforeign]
      obtain ⟨extension, hextension, rfl⟩ := hpath
      exact hnames extension hextension

theorem run
    (hok : ServiceOk cfg S₁)
    (hrun : Run (Service.step cfg) (FreshIds cfg) S₁ S) :
    FilesSince cfg S₁ S :=
  hrun.invariant (fun _ _ _ hfresh hstep hsince => hsince.step hfresh hstep) (refl hok)

end FilesSince

/-- The file of a rejected call is there exactly if the call has created it. -/
theorem expectedFile_of_rejected
    (cfg : SubmitConfig) {n : Nat} {err : ApiError}
    (hrejected : S.outcome n = some (.error err)) :
    ∃ inputs, (S.uploads n).inputs = some inputs ∧
      (S.uploads n).expectedFile cfg S.server = some (inputs.createdFile cfg) := by
  unfold Service.outcome at hrejected
  cases hn : S.uploads n with
  | refused inputs err => exact ⟨inputs, rfl, rfl⟩
  | submitted inputs record =>
      refine ⟨inputs, rfl, if_neg ?_⟩
      rw [hn] at hrejected
      cases hcall : S.server.calls record.id with
      | ended current ending =>
          cases ending with
          | returned result =>
              cases result with
              | ok response => simp [hcall] at hrejected
              | error err => nofun
          | dropped => nofun
      | _ => nofun
  | _ => simp [hn] at hrejected

/--
When `submit_multipart_job` has returned an error, the files are the same as
before the call, apart from those of other upload calls, if and only if the call
was refused before its image was written (no ready worker, an unreadable form, a
bad task, webhook URL or image) or its write failed without creating the file.
-/
theorem rejected_upload_keeps_files_iff
    {S₀ : Service M} {n : Nat} {err : ApiError}
    (hstarted : S₀.Started cfg)
    (hbefore : Run (Service.step cfg) (FreshIds cfg) S₀ S₁)
    (hidle : S₁.uploads n = .idle)
    (hrun : Run (Service.step cfg) (FreshIds cfg) S₁ S)
    (hrejected : S.outcome n = some (.error err)) :
    ∃ inputs, (S.uploads n).inputs = some inputs ∧
      ((∀ path, (path ∈ S.files ↔ path ∈ S₁.files) ∨ S.OtherImage cfg n path) ↔
        (∃ refusal, inputs.check cfg = .error refusal) ∨ inputs.env.write = .failed false) := by
  have hsince := FilesSince.run (ServiceOk.run hstarted hbefore) hrun
  obtain ⟨inputs, hinputs, hexpected⟩ := expectedFile_of_rejected cfg hrejected
  have hown : ∀ path, IsUploadPath cfg.imagesDir inputs.env.id path →
      (path ∈ S.files ↔ inputs.createdFile cfg = some path) ∧ path ∉ S₁.files := by
    intro path hpath
    have hnone : (S₁.uploads n).inputs = none := by
      rw [hidle]
      rfl
    exact ⟨hsince.ok.files n inputs _ path hinputs hexpected hpath,
      hsince.fresh n inputs path hnone hinputs hpath⟩
  refine ⟨inputs, hinputs, ?_⟩
  rw [← createdFile_eq_none_iff]
  constructor
  · intro hkept
    by_contra hcreated
    obtain ⟨path, hpath⟩ := Option.ne_none_iff_exists'.mp hcreated
    have hupload := isUploadPath_createdFile hpath
    obtain ⟨hthere, hnew⟩ := hown path hupload
    rcases hkept path with hsame | ⟨m, inputs', hm, hinputs', hother⟩
    · exact hnew (hsame.mp (hthere.mpr hpath))
    · exact hm (hsince.ok.distinct m n inputs' inputs hinputs' hinputs
        (hother.id_unique hupload))
  · intro hcreated path
    by_cases hforeign : ∃ m inputs', (S.uploads m).inputs = some inputs' ∧
        IsUploadPath cfg.imagesDir inputs'.env.id path
    · obtain ⟨m, inputs', hinputs', hpath⟩ := hforeign
      by_cases hm : m = n
      · rw [hm, hinputs, Option.some.injEq] at hinputs'
        rw [← hinputs'] at hpath
        obtain ⟨hthere, hnew⟩ := hown path hpath
        rw [hcreated] at hthere
        exact Or.inl ⟨fun h => absurd (hthere.mp h) nofun, fun h => absurd h hnew⟩
      · exact Or.inr ⟨m, inputs', hm, hinputs', hpath⟩
    · refine Or.inl (hsince.frame path ?_)
      intro m inputs' hinputs' hpath
      exact hforeign ⟨m, inputs', hinputs', hpath⟩

/-- The second upload call has not started, and no file has its name. -/
def secondIsNew (S : Service String) : Bool :=
  S.opened == 1 && decide (uploadPath oneSlot.imagesDir 2 "bmp" ∉ S.files)

/-- What the second upload call has returned. -/
def secondAnswers (err : ApiError) (S : Service String) : Bool :=
  match S.outcome 1 with
  | some (.error other) => other == err
  | _ => false

theorem outcome_of_secondAnswers
    {S : Service String} {err : ApiError} (h : secondAnswers err S = true) :
    S.outcome 1 = some (.error err) := by
  unfold secondAnswers at h
  split at h
  · rename_i other houtcome
    rw [houtcome, beq_iff_eq.mp h]
  · cases h

/-- The second call is turned away. -/
def secondRefused (S : Service String) : Bool :=
  secondIsNew S && (runService S (uploadActions 1 2 [])).any
    (secondAnswers (.badRequest "uploaded image is empty"))

theorem rejected_upload_keeps_files_iff_sample :
    ∃ S₁ S : Service String,
      S.outcome 1 = some (.error (.badRequest "uploaded image is empty")) ∧
      ∃ inputs, (S.uploads 1).inputs = some inputs ∧
        ((∀ path, (path ∈ S.files ↔ path ∈ S₁.files) ∨ S.OtherImage oneSlot 1 path) ↔
          (∃ refusal, inputs.check oneSlot = .error refusal) ∨
            inputs.env.write = .failed false) := by
  have hexec : (runService (Service.initial oneSlot) acceptedActions).any secondRefused =
      true := by
    decide +kernel
  obtain ⟨S₁, hbefore, htest⟩ := exists_run_of_runService hexec
  obtain ⟨hnew, hrefused⟩ := Bool.and_eq_true_iff.mp htest
  obtain ⟨S, hrun, hanswer⟩ := exists_run_of_runService hrefused
  have hidle : S₁.uploads 1 = .idle := by
    refine (ServiceOk.run (Service.started_initial oneSlot) hbefore).unopened 1 ?_
    rw [beq_iff_eq.mp (Bool.and_eq_true_iff.mp hnew).1]
  have houtcome := outcome_of_secondAnswers hanswer
  exact ⟨S₁, S, houtcome, rejected_upload_keeps_files_iff
    (Service.started_initial oneSlot) hbefore hidle hrun houtcome⟩

/-- The second call finds the queue full when its image is there. -/
def secondFindsFull (S : Service String) : Bool :=
  secondAnswers (.serviceUnavailable "inference queue is full") S &&
    (decide (uploadPath oneSlot.imagesDir 2 "bmp" ∈ S.files) &&
      (S.uploads 1).inputs.any (fun inputs => inputs.env.id == 2))

def secondRejected (S : Service String) : Bool :=
  secondIsNew S && (runService S (uploadActions 1 2 sampleImage ++
    [.saveUpload 1, .server (.call 2 .check)])).any secondFindsFull

/-- An upload that finds the queue full is answered with 503, and its image stays. -/
theorem full_queue_leaves_the_image :
    ∃ S₀ S₁ S : Service String, S₀.Started oneSlot ∧
      Run (Service.step oneSlot) (FreshIds oneSlot) S₀ S₁ ∧ S₁.uploads 1 = .idle ∧
      Run (Service.step oneSlot) (FreshIds oneSlot) S₁ S ∧
      S.outcome 1 = some (.error (.serviceUnavailable "inference queue is full")) ∧
      ¬ ∀ path, (path ∈ S.files ↔ path ∈ S₁.files) ∨ S.OtherImage oneSlot 1 path := by
  have hexec : (runService (Service.initial oneSlot) acceptedActions).any secondRejected =
      true := by
    decide +kernel
  obtain ⟨S₁, hbefore, htest⟩ := exists_run_of_runService hexec
  obtain ⟨hnew, hrejected⟩ := Bool.and_eq_true_iff.mp htest
  obtain ⟨S, hrun, hfull⟩ := exists_run_of_runService hrejected
  obtain ⟨hopened, hfile⟩ := Bool.and_eq_true_iff.mp hnew
  obtain ⟨hanswer, hrest⟩ := Bool.and_eq_true_iff.mp hfull
  obtain ⟨hthere, hinputs⟩ := Bool.and_eq_true_iff.mp hrest
  obtain ⟨inputs, hcall, hid⟩ : ∃ inputs, (S.uploads 1).inputs = some inputs ∧
      inputs.env.id = 2 := by
    cases hcall : (S.uploads 1).inputs with
    | none =>
        rw [hcall] at hinputs
        cases hinputs
    | some inputs =>
        rw [hcall] at hinputs
        exact ⟨inputs, rfl, beq_iff_eq.mp hinputs⟩
  have hstarted := Service.started_initial (M := String) oneSlot
  have hidle := (ServiceOk.run hstarted hbefore).unopened 1 (by rw [beq_iff_eq.mp hopened])
  refine ⟨Service.initial oneSlot, S₁, S, hstarted, hbefore, hidle, hrun,
    outcome_of_secondAnswers hanswer, ?_⟩
  intro hkept
  rcases hkept (uploadPath oneSlot.imagesDir 2 "bmp") with
    hsame | ⟨m, inputs', hm, hinputs', hother⟩
  · exact of_decide_eq_true hfile (hsame.mp (of_decide_eq_true hthere))
  · have hown : IsUploadPath oneSlot.imagesDir inputs.env.id
        (uploadPath oneSlot.imagesDir 2 "bmp") := by
      rw [hid]
      exact ⟨"bmp", by decide, rfl⟩
    have hok := ServiceOk.run hstarted (hbefore.trans hrun)
    exact hm (hok.distinct m 1 inputs' inputs hinputs' hcall (hother.id_unique hown))

end Rejections
end FlorenceServer
