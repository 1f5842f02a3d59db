import CodeProse.Proofs.Run.Apply

/-!
# Calls for the work of a corrector

Whatever a corrector is called for, its work goes chunk by chunk, and apart from the chunks nothing
in it touches the cache or what is in flight. What every chunk keeps of these two, every call keeps.
So nothing is in flight between two calls.
-/

set_option autoImplicit false

namespace CodeProse

variable {σ : Type}

namespace Workspace

/-- A call for the work of a corrector. -/
inductive WorkCall where
  | correctSpans (spans : List Span) (options : Option CorrectionOptions)
  | correctDetailed (span : Span) (options : Option CorrectionOptions)
  | applyAll (document? : Option Document) (options : Option CorrectionOptions)
  | applySelection (document? : Option Document) (selection? : Option Range)
      (options : Option CorrectionOptions)
  | applySubset (document? : Option Document) (corrections : List Correction)
  | preview (document? : Option Document) (options : Option CorrectionOptions)
  | undo (document? : Option Document)

/-- The workspace behind a call. -/
def WorkCall.perform (corrector : Corrector σ) (workspace : Workspace σ) : WorkCall → Workspace σ
  | correctSpans spans options => (Workspace.correctSpans corrector spans options workspace).2
  | correctDetailed span options => (Workspace.correctDetailed corrector span options workspace).2
  | applyAll document? options => (Workspace.applyAll corrector document? options workspace).2
  | applySelection document? selection? options =>
      (Workspace.applySelection corrector document? selection? options workspace).2
  | applySubset document? corrections =>
      (Workspace.applySubset corrector document? corrections workspace).2
  | preview document? options => (Workspace.preview corrector document? options workspace).2
  | undo document? => (Workspace.undo document? workspace).2

/-- A property of the cache and of what is in flight that every chunk keeps. -/
structure IsKept (corrector : Corrector σ) (holds : Workspace σ → Prop) : Prop where
  meanwhile : ∀ before after : Workspace σ, after.cache = before.cache →
    after.session.inFlight = before.session.inFlight → holds before → holds after
  chunk : ∀ options chunk before, holds before →
    holds (correctChunk corrector options chunk before).2

section Work

variable {corrector : Corrector σ} {holds : Workspace σ → Prop} {workspace : Workspace σ}

theorem IsKept.correctChunks (kept : IsKept corrector holds) (options : CorrectionOptions)
    (done : List Corrected) (chunks : List (List Span)) (held : holds workspace) :
    holds (Workspace.correctChunks corrector options done chunks workspace).2 := by
  have through := correctChunks_goesThrough corrector options done chunks workspace
  generalize Workspace.correctChunks corrector options done chunks workspace = result at through ⊢
  induction through with
  | finished => exact held
  | before cancelled => exact held
  | @failed done chunk rest workspace behind failure before given =>
      have next := kept.chunk options chunk workspace held
      rw [given] at next
      exact next
  | @behind done corrected chunk rest workspace behind before given cancelled records =>
      have next := kept.chunk options chunk workspace held
      rw [given] at next
      exact kept.meanwhile behind _ rfl rfl next
  | @passed done corrected chunk rest workspace behind session result before given after resumes
      further ih =>
      have next := kept.chunk options chunk workspace held
      rw [given] at next
      exact ih (kept.meanwhile behind _ rfl resumes.inFlight next)

theorem IsKept.correctSpans (kept : IsKept corrector holds) (spans : List Span)
    (options : Option CorrectionOptions) (held : holds workspace) :
    holds (Workspace.correctSpans corrector spans options workspace).2 := by
  have started : holds { workspace with state := .running } :=
    kept.meanwhile workspace _ rfl rfl held
  have final := kept.correctChunks (options.getD corrector.correctionOptions) []
    (chunks corrector.chunkSize spans) started
  simp only [Workspace.correctSpans]
  generalize Workspace.correctChunks corrector _ [] _ { workspace with state := .running } = outcome
    at final ⊢
  rcases outcome with ⟨failure | ⟨all, cancelled⟩, after⟩
  · exact final
  · exact kept.meanwhile after _ rfl rfl final

theorem IsKept.correctDetailed (kept : IsKept corrector holds) (span : Span)
    (options : Option CorrectionOptions) (held : holds workspace) :
    holds (Workspace.correctDetailed corrector span options workspace).2 := by
  have asked : ∀ session : Session σ, session.inFlight = workspace.session.inFlight →
      holds { workspace with session } :=
    fun session quiet => kept.meanwhile workspace _ rfl quiet held
  have plainly : ∀ session : Session σ, session.inFlight = workspace.session.inFlight →
      holds (Workspace.correctSpans corrector [span] options { workspace with session }).2 :=
    fun session quiet => kept.correctSpans [span] options (asked session quiet)
  have corrects := correctDetailed_correctsInDetail corrector span options workspace
  generalize Workspace.correctDetailed corrector span options workspace = result at corrects ⊢
  cases corrects with
  | structured given quiet => exact asked _ quiet
  | refused session configuration quiet => exact asked session quiet
  | @plain session run correction more after given quiet first =>
      exact congrArg Prod.snd given ▸ plainly session quiet
  | @nothing session run after given quiet none =>
      exact congrArg Prod.snd given ▸ plainly session quiet
  | @failed session failure after given quiet =>
      exact congrArg Prod.snd given ▸ plainly session quiet

theorem IsKept.place (kept : IsKept corrector holds) (document : Document)
    (corrections : List Correction) (held : holds workspace) :
    holds (workspace.place corrector document corrections).2.2 := by
  have puts := place_putsIn corrector document corrections workspace
  generalize workspace.place corrector document corrections = result at puts ⊢
  cases puts <;> exact kept.meanwhile workspace _ rfl rfl held

theorem IsKept.correctAndPlace (kept : IsKept corrector holds) (document : Document)
    (spans : List Span) (options : Option CorrectionOptions) (held : holds workspace) :
    holds (Workspace.correctAndPlace corrector document spans options workspace).2 := by
  simp only [Workspace.correctAndPlace]
  split
  · exact kept.meanwhile workspace _ rfl rfl held
  · have final := kept.correctSpans spans options held
    generalize Workspace.correctSpans corrector spans options workspace = outcome at final ⊢
    rcases outcome with ⟨failure | run, after⟩
    · exact final
    · dsimp only
      split
      · exact final
      · exact kept.place document run.corrections final

theorem IsKept.perform (kept : IsKept corrector holds) (call : WorkCall) (held : holds workspace) :
    holds (call.perform corrector workspace) := by
  cases call with
  | correctSpans spans options => exact kept.correctSpans spans options held
  | correctDetailed span options => exact kept.correctDetailed span options held
  | applyAll document? options =>
      cases document? with
      | none => exact held
      | some document =>
          exact kept.correctAndPlace document (corrector.spans document) options
            (kept.meanwhile workspace (workspace.logExtraction corrector document) rfl rfl held)
  | applySelection document? selection? options =>
      cases document? with
      | none => exact held
      | some document =>
          simp only [WorkCall.perform, applySelection]
          cases selection?.filter fun selection => !selection.isEmpty with
          | none => exact held
          | some selection =>
              exact kept.correctAndPlace document (corrector.spansIn document selection) options
                (kept.meanwhile workspace (workspace.logExtractionIn corrector document selection)
                  rfl rfl held)
  | applySubset document? corrections =>
      cases document? with
      | none => exact held
      | some document => exact kept.place document corrections held
  | preview document? options =>
      cases document? with
      | none => exact held
      | some document =>
          have final := kept.correctSpans (corrector.spans document) options
            (kept.meanwhile workspace (workspace.logExtraction corrector document) rfl rfl held)
          simp only [WorkCall.perform, preview]
          generalize Workspace.correctSpans corrector _ options _ = outcome at final ⊢
          rcases outcome with ⟨failure | run, after⟩
          · exact final
          · exact final
  | undo document? =>
      cases document? with
      | none => exact held
      | some document =>
          simp only [WorkCall.perform, undo]
          split
          · exact kept.meanwhile workspace _ rfl rfl held
          · split
            · exact kept.meanwhile workspace _ rfl rfl held
            · exact kept.meanwhile workspace _ rfl rfl held

theorem isKept_inFlight (corrector : Corrector σ) (keys : List Text) :
    IsKept corrector fun workspace => workspace.session.inFlight = keys where
  meanwhile _ _ _ quiet held := quiet.trans held
  chunk options chunk before held := (correctChunk_inFlight corrector options chunk before).trans held

/-- Whatever a corrector is called for, nothing is in flight between the calls. -/
theorem inFlight_foldl_perform (corrector : Corrector σ) (calls : List WorkCall)
    (idle : workspace.session.inFlight = []) :
    (calls.foldl (WorkCall.perform corrector) workspace).session.inFlight = [] := by
  induction calls generalizing workspace with
  | nil => exact idle
  | cons call rest ih => exact ih ((isKept_inFlight corrector []).perform call idle)

end Work

end Workspace

end CodeProse
