import FlorenceServer.Api.UploadFiles

/-!
# The cleanup of uploaded images

`cleanup_job_artifacts` looks at a tag and at the directory of the path.  The
invariant of the upload calls makes this enough.

* `cleanup_removes_own_upload`: the cleanup of a job removes nothing but the image
  that the upload call of this very job has written.
-/

namespace FlorenceServer

open Runs

variable {M : Type}

section Cleanup

variable {cfg : SubmitConfig} {S S' : Service M}

/-- A file disappears only where a worker cleans up. -/
theorem removed_by_cleanup
    {a : ServiceAction M} {path : PathBuf}
    (hstep : S.step cfg a = some S')
    (hbefore : path ∈ S.files) (hafter : path ∉ S'.files) :
    ∃ w record restart, a = .server (.worker w (.cleanup .removed)) ∧
      S.server.loops w = .cleaning record restart ∧
      shouldDeleteImage cfg.toConfig record = true ∧ path = record.imagePath := by
  cases Service.step_cases hstep with
  | openUpload body env => exact absurd hbefore hafter
  | check hcall hcheck => exact absurd hbefore hafter
  | refuse hcall hcheck => exact absurd hbefore hafter
  | save hcall hwrite hsubmit => exact absurd (Finset.mem_insert_of_mem hbefore) hafter
  | saveFailed hcall hwrite =>
      exact absurd ((Service.mem_setFile _ _ _ _).mpr (Or.inl hbefore)) hafter
  | dropReading hcall => exact absurd hbefore hafter
  | dropSaving hcall =>
      exact absurd ((Service.mem_setFile _ _ _ _).mpr (Or.inl hbefore)) hafter
  | submitLocal hbuilt hsubmit => exact absurd hbefore hafter
  | @server a server hadmits hserver =>
      change path ∉ S.filesAfter cfg a at hafter
      rcases filesAfter_cases cfg S a with hsame | ⟨w, record, restart, rfl, hloop, hdelete, herase⟩
      · rw [hsame] at hafter
        exact absurd hbefore hafter
      · refine ⟨w, record, restart, rfl, hloop, hdelete, ?_⟩
        by_contra hne
        rw [herase] at hafter
        exact hafter (Finset.mem_erase.mpr ⟨hne, hbefore⟩)

/--
At every point of a run of upload and local-path submissions: a job that
`cleanup_job_artifacts` is called for is terminal, and where the call goes on to
remove a file, this is a direct child of the images directory that the upload
call of the same id has written.  A file that a step removes is one of these, and
no other upload call has written it.
-/
theorem cleanup_removes_own_upload
    {S₀ : Service M}
    (hstarted : S₀.Started cfg)
    (hrun : Run (Service.step cfg) (FreshIds cfg) S₀ S) :
    (∀ w record restart, S.server.loops w = .cleaning record restart →
      record.Terminal ∧
      (shouldDeleteImage cfg.toConfig record = true →
        IsDirectChild cfg.imagesDir record.imagePath ∧
        ∃ n inputs submitted, S.uploads n = .submitted inputs submitted ∧
          inputs.Built cfg submitted ∧ submitted.id = record.id ∧
          inputs.createdFile cfg = some record.imagePath)) ∧
    (∀ a S' path, S.step cfg a = some S' → path ∈ S.files → path ∉ S'.files →
      ∃ w record restart n inputs,
        a = .server (.worker w (.cleanup .removed)) ∧
        S.server.loops w = .cleaning record restart ∧ record.Terminal ∧
        (S.uploads n).inputs = some inputs ∧ inputs.env.id = record.id ∧
        inputs.createdFile cfg = some path ∧
        ∀ m inputs', (S.uploads m).inputs = some inputs' →
          inputs'.createdFile cfg = some path → m = n) := by
  have hok := ServiceOk.run hstarted hrun
  constructor
  · intro w record restart hloop
    obtain ⟨hterminal, -, hown⟩ := hok.cleaning hloop
    refine ⟨hterminal, fun hdelete => ?_⟩
    obtain ⟨n, inputs, submitted, hn, hid, hcreated⟩ := hown hdelete
    have hbuilt := (hok.built n inputs submitted hn).1
    exact ⟨(isUploadPath_createdFile hcreated).isDirectChild,
      n, inputs, submitted, hn, hbuilt, hid, hcreated⟩
  · intro a S' path hstep hbefore hafter
    obtain ⟨w, record, restart, rfl, hloop, hdelete, rfl⟩ :=
      removed_by_cleanup hstep hbefore hafter
    obtain ⟨hterminal, -, hown⟩ := hok.cleaning hloop
    obtain ⟨n, inputs, submitted, hn, hid, hcreated⟩ := hown hdelete
    have hbuilt := (hok.built n inputs submitted hn).1
    have hinputs : (S.uploads n).inputs = some inputs := by
      rw [hn]
      rfl
    refine ⟨w, record, restart, n, inputs, rfl, hloop, hterminal, hinputs,
      hbuilt.id_eq.symm.trans hid, hcreated, ?_⟩
    intro m inputs' hinputs' hcreated'
    exact hok.distinct m n inputs' inputs hinputs' hinputs
      ((isUploadPath_createdFile hcreated').id_unique (isUploadPath_createdFile hcreated))

/-- The worker goes on to remove the image. -/
def WorkerLoop.removesImage (cfg : Config) : WorkerLoop M → Bool
  | .cleaning record _ => shouldDeleteImage cfg record
  | _ => false

theorem cleanup_removes_own_upload_sample :
    ∃ (S : Service String) (record : JobRecord String) (restart : Bool) (inputs : UploadInputs),
      S.server.loops 0 = .cleaning record restart ∧ record.Terminal ∧
      IsDirectChild oneSlot.imagesDir record.imagePath ∧
      inputs.createdFile oneSlot = some record.imagePath := by
  have hexec : (runService (Service.initial oneSlot) (acceptedActions ++
      (inferActions 0 8 ++ (finishActions 0 9).take 3).map .server)).any
      (fun S => (S.server.loops 0).removesImage oneSlot.toConfig) = true := by
    decide +kernel
  obtain ⟨S, hrun, hremoves⟩ := exists_run_of_runService hexec
  obtain ⟨hcleanup, -⟩ := cleanup_removes_own_upload (Service.started_initial oneSlot) hrun
  cases hloop : S.server.loops 0 with
  | cleaning record restart =>
      rw [hloop] at hremoves
      obtain ⟨hterminal, hown⟩ := hcleanup 0 record restart hloop
      obtain ⟨hchild, n, inputs, submitted, -, -, -, hcreated⟩ := hown hremoves
      exact ⟨S, record, restart, inputs, hloop, hterminal, hchild, hcreated⟩
  | _ =>
      rw [hloop] at hremoves
      cases hremoves

end Cleanup

end FlorenceServer
