import OscHost.Proofs.FirstSteps
import OscHost.Proofs.HostCalls
/-!
  Which files scripts reach.

  With all flags off the host does for scripts what they ask for and nothing else, and before it uses
  a path it asks the jail that the path belongs to.  Three things escape: `io.tmpfile` makes a file
  where the system keeps temporary ones, `package.searchpath` looks for files anywhere, and a path
  with a zero byte in it is accepted whole but used up to that byte.  `Strays` says exactly when, and
  it is all that can be said against a request: every other one stays on accepted paths, along every
  run of every script.
-/

namespace OscHost

open Script Relation

namespace Moment

variable {s : Host} {t t' : Moment} {e : Effect}

/-- Whether a library function asks the host for something. -/
def AsksFrom (t : Moment) (f : Value) (e : Effect) : Prop :=
  ∃ m x s known m' h k c, t = .busy m x s known ∧ c.function = f ∧
    Machine.step Library.invoke m x = .ask m' e h k c

/-- In a good moment a function only asks for what it may ask for. -/
theorem Good.may (ht : t.Good .free) {f : Value} (he : t.AsksFrom f e) :
    ∃ a : Actor, a.function = f ∧ a.May .free e := by
  obtain ⟨m, x, s, known, m', h, k, c, rfl, rfl, hask⟩ := he
  obtain ⟨hfine, -⟩ := step_fine ht nofun
  rw [hask] at hfine
  obtain ⟨-, -, name, hmay, -⟩ := hfine
  exact ⟨⟨c.function, name⟩, rfl, hmay⟩

/-- What a step does to the host: nothing, what is asked for, or what happens outside of the run. -/
theorem Step.host (hs : Step t t') :
    t'.host = t.host ∨ Outside t.host t'.host ∨
      ∃ f e, t.AsksFrom f e ∧ t'.host = (t.host.perform e).2 := by
  cases hs with
  | next hs => exact .inl rfl
  | answer hs => exact .inr (.inr ⟨_, _, ⟨_, _, _, _, _, _, _, _, rfl, rfl, hs⟩, rfl⟩)
  | finish hs base => exact .inl rfl
  | outside hs => exact .inr (.inl hs)
  | rest hs => exact .inr (.inl hs)
  | compile p => exact .inl rfl
  | texts ss => exact .inl rfl
  | thread hf => exact .inl rfl
  | call hf ha => exact .inl rfl
  | field hv name => exact .inl rfl
  | text hv => exact .inl rfl
  | resume thread ha => exact .inl rfl

theorem Step.locked (hs : Step t t') (ht : t.Good .free) (hl : t.host.Locked) : t'.host.Locked := by
  rcases hs.host with hsame | hout | ⟨f, e, he, hperform⟩
  · rw [hsame]
    exact hl
  · exact hl.congr hout.policy hout.files
  · obtain ⟨a, -, hmay⟩ := ht.may he
    rw [hperform]
    exact hl.perform hmay

/-- Along a run scripts stay locked in. -/
theorem Run.locked (hs : s.Locked) (hr : Run (new s) t) : t.Good .free ∧ t.host.Locked := by
  induction hr with
  | refl => exact ⟨new_good hs.policy (fun _ => False) id (fun _ hw => absurd hw Ward.not_mem_free), hs⟩
  | tail _ hstep ih => exact ⟨Run.good (.single hstep) ih.1, hstep.locked ih.1 ih.2⟩

/-- Whether a function may ask for something: a file looked for anywhere, a temporary file, or no
    process. -/
structure Permitted (f : Value) (e : Effect) : Prop where
  probe : ∀ path, e = .probe path → f = .builtin .searchpath
  temporary : e = .temporaryFile → f = .builtin .ioTmpfile
  openProcess : ∀ command mode, e ≠ .openProcess command mode
  execute : ∀ command, e ≠ .execute command

/-- What scripts ask for is done on paths that a jail has accepted unless it strays, and nothing else
    is done for them.  Only `io.tmpfile` asks for a temporary file, only `package.searchpath` looks
    for files, and nobody starts a process. -/
theorem files_confined (s : Host) (hs : s.Locked) (t : Moment) (hr : Run (new s) t) :
    (∀ f e, t.AsksFrom f e → t.host.perform e = (t.host.plan e).carryOut ∧
      ((t.host.plan e).On t.host.Accepts ↔ ¬ t.host.Strays e) ∧ Permitted f e) ∧
    ∀ t', Step t t' → t'.host = t.host ∨ Outside t.host t'.host ∨
      ∃ f e, t.AsksFrom f e ∧ t'.host = ((t.host.plan e).carryOut).2 := by
  obtain ⟨hgood, hlocked⟩ := Run.locked hs hr
  constructor
  · intro f e he
    -- who asks may ask for it, and this is all that the invariant says of effects
    obtain ⟨a, rfl, hmay⟩ := hgood.may he
    refine ⟨Host.perform_eq e, Host.plan_on_accepts_iff hlocked.policy hmay hlocked.noSinks, ?_⟩
    refine ⟨?_, ?_, ?_, ?_⟩
    · rintro path rfl
      exact hmay.resolve_left Bool.false_ne_true
    · rintro rfl
      exact hmay.resolve_left Bool.false_ne_true
    · rintro command mode rfl
      exact absurd hmay Bool.false_ne_true
    · rintro command rfl
      exact absurd hmay Bool.false_ne_true
  · intro t' hstep
    rcases hstep.host with hsame | hout | ⟨f, e, he, hperform⟩
    · exact .inl hsame
    · exact .inr (.inl hout)
    · rw [Host.perform_eq] at hperform
      exact .inr (.inr ⟨f, e, he, hperform⟩)

/-! ## A script that makes a file -/

/-- The code of `io.tmpfile()`. -/
def makeFile : Proto := .mk
  #[(.getUpvalue 0, 1), (.pushString "io", 1), (.index (some ⟨"upvalue", "_ENV"⟩), 1),
    (.pushString "tmpfile", 1), (.index (some ⟨"global", "io"⟩), 1),
    (.call 0 false (.exact 0) (some ⟨"field", "tmpfile"⟩), 1), (.ret 0 false, 1)]
  #[] [(.slot 0, "_ENV")] 0 true 0 "=s" "main" 0 1

/-- Calling the script up to its first pause. -/
theorem run_makeFile {h : Heap} {i n : Nat} {o v : Value}
    (ho : Lib.lookup h (h.cell n) (.string "io") = .found o)
    (hv : Lib.lookup h o (.string "tmpfile") = .found v) (fuel : Nat) :
    let x := Activation.start i ⟨makeFile, #[n]⟩ [] none
    Activation.run (fuel + 6) h x =
      ⟨h, { x with pc := 6, pausedAt := 5, want := .exact 0 },
        .call v [] (some ⟨"field", "tmpfile"⟩)⟩ := by
  intro x
  rw [run_global (x := x) rfl rfl rfl ho, run_member rfl rfl rfl hv,
    Activation.run_code (i := .call 0 false (.exact 0) (some ⟨"field", "tmpfile"⟩)) rfl]
  rfl

/-- On every host with all flags off the script asks for a temporary file. -/
theorem exists_run_temporaryFile (hs : s.policy = {}) :
    ∃ t, Run (new s) t ∧ t.AsksFrom (.builtin .ioTmpfile) .temporaryFile := by
  obtain ⟨h, id, n, hc⟩ := exists_compiled hs makeFile
  have hio : (Sandbox.contents {} s.scriptRoot .globals).getText "io" =
      .table Sandbox.Place.io.id := by
    refine Sandbox.getText_tableOf_of_mem (by decide) (by decide) ?_
    simp [Sandbox.libraries]
  have htmpfile : (Sandbox.contents {} s.scriptRoot .io).getText "tmpfile" =
      .builtin .ioTmpfile := by
    refine Sandbox.getText_tableOf_of_mem (by decide) (by decide) ?_
    simp [Sandbox.entries, Sandbox.laterFileFunctions]
  have hcall := step_call (m := {})
    (run_makeFile (i := id) (hc.lookup_global hio) (hc.lookup htmpfile) 9994)
  rw [enter_builtin] at hcall
  refine ⟨_, (hc.run (Nat.zero_le _)).tail (.next hcall), ?_⟩
  exact ⟨_, _, _, _, _, _, _, ⟨.builtin .ioTmpfile, _, _⟩, rfl, rfl, rfl⟩

/-- The host with two empty roots is asked for a temporary file, and only for that. -/
theorem plain_files_confined : plainHost.Locked ∧ ∃ t, Run (new plainHost) t ∧
    t.AsksFrom (.builtin .ioTmpfile) .temporaryFile ∧
    ¬ (t.host.plan .temporaryFile).On t.host.Accepts := by
  have hlocked : plainHost.Locked := ⟨rfl, by decide⟩
  obtain ⟨t, hr, he⟩ := exists_run_temporaryFile (s := plainHost) rfl
  obtain ⟨-, hiff, -⟩ := (files_confined plainHost hlocked t hr).1 _ _ he
  exact ⟨hlocked, t, hr, he, fun hon => hiff.mp hon trivial⟩

/-- So not everything that scripts ask for is done on accepted paths. -/
theorem not_forall_files_confined : ¬ ∀ s t f e, s.Locked → Run (new s) t → t.AsksFrom f e →
    (t.host.plan e).On t.host.Accepts := by
  intro h
  obtain ⟨t, hr, he⟩ := exists_run_temporaryFile (s := plainHost) rfl
  exact h plainHost t _ _ ⟨rfl, by decide⟩ hr he

end Moment

end OscHost
