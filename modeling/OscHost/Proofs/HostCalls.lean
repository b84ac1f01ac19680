import OscHost.Proofs.Files.Streams
import OscHost.Proofs.Loading
import OscHost.Proofs.Script.Safety
import Mathlib.Data.List.TakeWhile
/-!
  The paths at which the host uses files.

  Whatever `Host.perform` does with the file system by path, or with processes, is a `FileCall`.  The
  plan of an effect names the call before it is made, if there is one, and performing the effect is
  carrying out the plan.  So what an effect may reach can be read off its plan: paths that a jail has
  made of a request, but for the effects that `Strays` lists.
-/

namespace OscHost

open Files Script

/-! ## Calls and plans -/

/-- A use of the file system by path, or of a process. -/
inductive FileCall
  | read (path : String)
  | isFile (path : String)
  | write (path : String) (content : ByteArray)
  | list (path : String)
  | openFile (path : String) (mode : Bytes)
  | remove (path : String)
  | rename (source target : String)
  | probe (path : String)
  /-- Makes a file where the system keeps temporary ones. -/
  | temporary
  /-- Whatever a process does that an effect starts or ends. -/
  | process (e : Effect)

namespace FileCall

/-- The type of what comes of a call. -/
@[reducible] def Reply : FileCall → Type
  | .read _ => Except HostError ByteArray
  | .isFile _ => Bool
  | .write .. => Except HostError Unit
  | .list _ => Except HostError (List String)
  | .openFile .. => Opening
  | .remove _ => Except FileError Unit
  | .rename .. => Except FileError Unit
  | .probe _ => Bool
  | .temporary => Nat
  | .process e => e.Reply

/-- Makes a call. -/
def run : (c : FileCall) → Host → c.Reply × Host
  | .read path, s => (Host.fileFailure (s.tree.read path), s)
  | .isFile path, s => (s.tree.isFile path, s)
  | .write path content, s =>
    match Host.fileFailure (s.tree.write path content) with
    | .ok tree => (.ok (), { s with tree })
    | .error e => (.error e, s)
  | .list path, s => (Host.fileFailure (s.tree.list path), s)
  | .openFile path mode, s => s.openFile path mode
  | .remove path, s => s.removeFile path
  | .rename source target, s => s.renameFile source target
  | .probe path, s => ((s.tree.existing path).toBool, s)
  | .temporary, s => s.keep { stream := .loose ByteArray.empty, access := ⟨true, true, false⟩ }
  | .process e, s => s.perform e

/-- Whether a call is one on certain paths. -/
def On (P : String → Prop) : FileCall → Prop
  | .read path | .isFile path | .write path _ | .list path | .openFile path _ | .remove path
  | .probe path => P path
  | .rename source target => P source ∧ P target
  | .temporary | .process _ => False

end FileCall

/-- What the host is going to do: nothing with the file system, or one call. -/
inductive Plan (α : Type)
  | done (a : α) (s : Host)
  | call (c : FileCall) (s : Host) (k : c.Reply → α)

namespace Plan

variable {α β : Type}

/-- Does what is planned. -/
def carryOut : Plan α → α × Host
  | .done a s => (a, s)
  | .call c s k =>
    match c.run s with
    | (r, s) => (k r, s)

/-- Whether a call is made on certain paths, if one is made. -/
def On (P : String → Prop) : Plan α → Prop
  | .done .. => True
  | .call c _ _ => c.On P

/-- A plan with another result. -/
def map (f : α → β) : Plan α → Plan β
  | .done a s => .done (f a) s
  | .call c s k => .call c s fun r => f (k r)

theorem carryOut_map (f : α → β) (p : Plan α) : (p.map f).carryOut = (f p.carryOut.1, p.carryOut.2) := by
  cases p <;> rfl

@[simp] theorem on_map {P : String → Prop} {f : α → β} {p : Plan α} : (p.map f).On P ↔ p.On P := by
  cases p <;> rfl

end Plan

namespace Host

/-- The text that the content of a file spells. -/
def spelled (content : ByteArray) : Except HostError String :=
  match Text.Utf8.decode content with
  | .ok text => pure text
  | .error _ => throw (.files "stream did not contain valid UTF-8")

/-- Plans to read the text of a file. -/
def planText (s : Host) (path : String) : Plan (Except HostError String) :=
  match whole path with
  | .error e => .done (.error e) s
  | .ok path => .call (.read (s.absolute path)) s fun r => r >>= spelled

/-- Plans to use a path that the guard of the io functions lets pass. -/
def planGuarded {α : Type} (s : Host) (path : PathArg) (f : String → Host → Plan α) :
    Plan (Guarded α) :=
  match s.guardPath path with
  | (.refused text, s) => .done (.refused text) s
  | (.unreadable e, s) => .done (.unreadable e) s
  | (.passed path _, s) => (f (s.absolute path) s).map (.passed path)

/-- What the host is going to do about an effect.  Whatever is left over at the end has to do with
    open files or with no files at all. -/
def plan (s : Host) : (e : Effect) → Plan e.Reply
  | .readJson path =>
    match refusal (s.jsonRoots.resolve s.tree s.around path) with
    | .error e => .done (.error e) s
    | .ok l => (s.planText (Location.text l)).map fun r => do
      match Json.parse (← r) with
      | .ok j => pure j.canonical
      | .error e => throw (.marshal (path ++ ": " ++ e.message))
  | .writeJson path tree =>
    match refusal (s.jsonRoots.resolve s.tree s.around path) with
    | .error e => .done (.error e) s
    | .ok l =>
      match whole (Location.text l) with
      | .error e => .done (.error e) (s.records tree.log)
      | .ok path => .call (.write path tree.value.indented.toUTF8) (s.records tree.log) id
  | .loadScript none => .done (.error (.policyViolation "loading chunks from stdin is not permitted")) s
  | .loadScript (some path) =>
    match refusal (s.scriptJail.resolve s.tree s.around path) with
    | .error e => .done (.error e) s
    | .ok l => (s.planText (Location.text l)).map fun r => do
      pure ⟨"/".intercalate (l.drop s.scriptJail.root.length), withoutHashLine (← r)⟩
  | .isModule path =>
    match s.scriptJail.resolve s.tree s.around path with
    | .error _ => .done false s
    | .ok l =>
      if path.contains '\x00' then .done false s else .call (.isFile (Location.text l)) s id
  | .openFile path mode => s.planGuarded path fun path s => .call (.openFile path mode) s id
  | .removeFile path => s.planGuarded path fun path s => .call (.remove path) s id
  | .renameFile source target =>
    match s.guardPath source with
    | (.refused text, s) => .done (.refused text) s
    | (.unreadable e, s) => .done (.unreadable e) s
    | (.passed source _, s) =>
      s.planGuarded target fun target s' => .call (.rename (s.absolute source) target) s' id
  | .listDirectory path =>
    match s.ioPath path >>= whole with
    | .error e => .done (.error e) s
    | .ok path => .call (.list (s.absolute path)) s id
  | .probe path => .call (.probe (s.absolute (cut (Text.Utf8.lossy path)))) s id
  | .temporaryFile => .call .temporary s some
  | .openProcess command mode => .call (.process (.openProcess command mode)) s id
  | .execute command => .call (.process (.execute command)) s id
  | .close n =>
    if (s.file? n).any (·.isSink) then .call (.process (.close n)) s id
    else .done (s.perform (.close n)).1 (s.perform (.close n)).2
  | e => .done (s.perform e).1 (s.perform e).2

variable {s : Host}

theorem carryOut_planText (path : String) : (s.planText path).carryOut = (s.readText path, s) := by
  unfold planText readText
  cases whole path with
  | error e => rfl
  | ok path => rfl

theorem carryOut_planGuarded {α : Type} {path : PathArg} {f : String → Host → Plan α}
    {g : String → Host → α × Host} (hf : ∀ path s, (f path s).carryOut = g path s) :
    (s.planGuarded path f).carryOut = s.guarded path g := by
  unfold planGuarded guarded
  rcases s.guardPath path with ⟨text | e | path, s'⟩
  · rfl
  · rfl
  · dsimp only
    rw [Plan.carryOut_map, hf]

/-- Performing an effect is carrying out the plan for it. -/
theorem perform_eq (e : Effect) : s.perform e = (s.plan e).carryOut := by
  cases e with
  | readJson path =>
    show (s.readJson path, s) = _
    unfold plan readJson
    dsimp only
    cases refusal (s.jsonRoots.resolve s.tree s.around path) with
    | error e => rfl
    | ok l =>
      dsimp only
      rw [Plan.carryOut_map, carryOut_planText]
      rfl
  | writeJson path tree =>
    show s.writeJson path tree = _
    unfold plan writeJson
    dsimp only
    cases refusal (s.jsonRoots.resolve s.tree s.around path) with
    | error e => rfl
    | ok l =>
      dsimp only
      cases whole (Location.text l) with
      | error e => rfl
      | ok path =>
        unfold Plan.carryOut FileCall.run
        dsimp only
        cases fileFailure ((s.records tree.log).tree.write path tree.value.indented.toUTF8) <;> rfl
  | loadScript path =>
    cases path with
    | none => rfl
    | some path =>
      show (s.loadScript (some path), s) = _
      unfold plan loadScript
      dsimp only
      cases refusal (s.scriptJail.resolve s.tree s.around path) with
      | error e => rfl
      | ok l =>
        dsimp only
        rw [Plan.carryOut_map, carryOut_planText]
        rfl
  | isModule path =>
    show (s.isModule path, s) = _
    unfold plan isModule
    dsimp only
    cases s.scriptJail.resolve s.tree s.around path with
    | error e => rfl
    | ok l =>
      dsimp only
      split
      · next h => rw [h]; rfl
      · next h => rw [Bool.eq_false_iff.mpr h]; rfl
  | openFile path mode =>
    exact (carryOut_planGuarded (f := fun path s => .call (.openFile path mode) s id)
      fun _ _ => rfl).symm
  | removeFile path =>
    exact (carryOut_planGuarded (f := fun path s => .call (.remove path) s id) fun _ _ => rfl).symm
  -- the source is settled first, and what is left is guarded as for one path
  | renameFile source target =>
    unfold perform plan
    dsimp only
    rw [guarded]
    rcases s.guardPath source with ⟨text | e | source, s'⟩
    · rfl
    · rfl
    · exact (carryOut_planGuarded (g := fun target s => s.renameFile (s'.absolute source) target)
        fun _ _ => rfl).symm
  | listDirectory path =>
    show (s.listDirectory path, s) = _
    unfold plan listDirectory
    dsimp only
    cases s.ioPath path with
    | error e => rfl
    | ok path =>
      simp only [bind, Except.bind]
      cases whole path <;> rfl
  | close n =>
    unfold plan
    dsimp only
    split <;> rfl
  | _ => rfl

/-! ## Accepted paths -/

/-- Whether a path is what one of the jails makes of a request that it accepts. -/
def Accepts (s : Host) (path : String) : Prop :=
  ∃ request l, path = Location.text l ∧
    (s.ioJail.resolve s.tree s.around request = .ok l ∨
      s.scriptJail.resolve s.tree s.around request = .ok l ∨
      s.jsonRoots.resolve s.tree s.around request = .ok l)

/-- Whether the io jail makes a location of what the io functions are given. -/
def Admits (s : Host) (path : PathArg) (l : Location) : Prop :=
  ∃ b request, path = .text b ∧ Text.Utf8.decode b = .ok request ∧
    s.ioJail.resolve s.tree s.around request = .ok l

/-- Whether the system reads the text of a location as another path, which no jail accepts. -/
def Slips (s : Host) (l : Location) : Prop :=
  '\x00' ∈ l.text.toList ∧ ¬ s.Accepts (cut l.text)

/-- Whether an effect leads to a path that no jail accepts: a temporary file, a probe anywhere else,
    or a path of which the system reads a part only. -/
def Strays (s : Host) : Effect → Prop
  | .temporaryFile => True
  | .probe path => ¬ s.Accepts (s.absolute (cut (Text.Utf8.lossy path)))
  | .openFile path _ | .removeFile path => ∃ l, s.Admits path l ∧ s.Slips l
  | .renameFile source target =>
    ∃ l m, s.Admits source l ∧ s.Admits target m ∧ (s.Slips l ∨ s.Slips m)
  | _ => False

/-- The text up to a zero byte is all of it where there is none. -/
theorem cut_eq_self {path : String} (h : '\x00' ∉ path.toList) : cut path = path := by
  have hall : ∀ c ∈ path.toList, (c != '\x00') = true := fun c hc => by
    rw [bne_iff_ne]
    rintro rfl
    exact h hc
  rw [cut, List.takeWhile_eq_self_iff.mpr hall]
  exact String.ofList_toList

/-- What is left of the text of a location starts at the root as well. -/
theorem absolute_cut_text (l : Location) : s.absolute (cut l.text) = cut l.text := by
  have habsolute : Path.isAbsolute (cut l.text) := by
    rw [Path.isAbsolute, cut, String.toList_ofList, Location.toList_text]
    rfl
  unfold absolute
  split
  · next h => rw [h]
  · rw [Path.join, if_pos habsolute]

theorem accepts_cut_iff {path : PathArg} {l : Location} (ha : s.Admits path l) :
    s.Accepts (cut l.text) ↔ ¬ s.Slips l := by
  obtain ⟨_, request, _, _, hl⟩ := ha
  refine ⟨fun h hslips => hslips.2 h, fun h => ?_⟩
  by_cases hzero : '\x00' ∈ l.text.toList
  · exact Classical.byContradiction fun hno => h ⟨hzero, hno⟩
  · rw [cut_eq_self hzero]
    exact ⟨request, l, rfl, .inl hl⟩

theorem Admits.unique {path : PathArg} {l m : Location} (hl : s.Admits path l) (hm : s.Admits path m) :
    l = m := by
  obtain ⟨_, _, rfl, hb, hl⟩ := hl
  obtain ⟨_, _, hp, hb', hm⟩ := hm
  cases hp
  cases hb.symm.trans hb'
  exact Except.ok.inj (hl.symm.trans hm)

theorem mem_of_file? {n : Nat} {f : OpenFile} (h : s.file? n = some f) : f ∈ s.files := by
  unfold file? at h
  split at h
  · split at h <;> cases h
    exact Array.mem_of_getElem? ‹_›
  · cases h

theorem whole_eq_ok {path path' : String} (h : whole path = .ok path') : path' = path := by
  unfold whole at h
  split at h <;> cases h
  rfl

/-- Why the guard of the io functions refuses a path, and the host after it: a value that is no text
    is told by its type, and what the jail does not accept is logged too. -/
inductive Refuses (s : Host) : PathArg → String → Host → Prop
  | notText (type : String) : Refuses s (.other type) ("path must be a string, got " ++ type) s
  | outside {b : Bytes} {request : String} {e : Refusal} (decoded : Text.Utf8.decode b = .ok request)
      (refused : s.ioJail.resolve s.tree s.around request = .error e) :
      Refuses s (.text b) e.message
        (s.record (.warn ("io access refused: " ++ (HostError.policyViolation e.message).message)))

/-- What the guard of the io functions makes of a path. -/
inductive Verdict (s : Host) (path : PathArg) : Guarded Unit × Host → Prop
  /-- The io jail admits it, and the system reads it up to a zero byte. -/
  | passed {l : Location} (admitted : s.Admits path l) : Verdict s path (.passed (cut l.text) (), s)
  | refused {why : String} {s' : Host} (refuses : s.Refuses path why s') :
    Verdict s path (.refused (HostError.policyViolation why).message, s')
  | unreadable {b : Bytes} {e : Text.Utf8.Invalid} (text : path = .text b)
      (garbled : Text.Utf8.decode b = .error e) : Verdict s path (.unreadable e, s)

theorem ioPath_watched (hs : s.policy.unrestrictedFiles = false) (path : String) :
    s.ioPath path = (refusal (s.ioJail.resolve s.tree s.around path)).map Location.text := by
  unfold ioPath
  rw [hs]
  cases refusal (s.ioJail.resolve s.tree s.around path) <;> rfl

/-- As long as the io jail is not lifted, the guard asks it about every text. -/
theorem guardPath_verdict (hs : s.policy.unrestrictedFiles = false) (path : PathArg) :
    s.Verdict path (s.guardPath path) := by
  unfold guardPath
  cases path with
  | other type => exact .refused (.notText type)
  | text b =>
    dsimp only
    rcases hb : Text.Utf8.decode b with e | request
    · exact .unreadable rfl hb
    · dsimp only
      rw [ioPath_watched hs]
      rcases hl : s.ioJail.resolve s.tree s.around request with e | l
      · exact .refused (.outside hb hl)
      · exact .passed ⟨b, request, rfl, hb, hl⟩

theorem Refuses.not_admits {path : PathArg} {why : String} {s' : Host} (h : s.Refuses path why s')
    (l : Location) : ¬ s.Admits path l := by
  rintro ⟨_, _, rfl, hr, hl⟩
  cases h with
  | outside decoded refused =>
    cases decoded.symm.trans hr
    cases refused.symm.trans hl

/-- A text that is not in UTF-8 is no request. -/
theorem not_admits_of_garbled {b : Bytes} {e : Text.Utf8.Invalid}
    (h : Text.Utf8.decode b = .error e) (l : Location) : ¬ s.Admits (.text b) l := by
  rintro ⟨_, _, ht, hr, -⟩
  cases ht
  cases h.symm.trans hr

section

variable (hs : s.policy = {})
include hs

theorem ioPath_eq (path : String) : s.ioPath path =
    (refusal (s.ioJail.resolve s.tree s.around path)).map Location.text :=
  ioPath_watched (hs ▸ rfl) path

/-- The guard lets pass what the io jail admits, cut at a zero byte. -/
theorem guardPath_cases (path : PathArg) :
    (∃ l, s.Admits path l ∧ s.guardPath path = (.passed (cut l.text) (), s)) ∨
    (∀ l, ¬ s.Admits path l) ∧ ((∃ text s', s.guardPath path = (.refused text, s')) ∨
      ∃ e, s.guardPath path = (.unreadable e, s)) := by
  have hverdict := guardPath_verdict (hs ▸ rfl : s.policy.unrestrictedFiles = false) path
  generalize s.guardPath path = r at hverdict ⊢
  cases hverdict with
  | passed admitted => exact .inl ⟨_, admitted, rfl⟩
  | refused refuses => exact .inr ⟨refuses.not_admits, .inl ⟨_, _, rfl⟩⟩
  | unreadable text garbled =>
    exact .inr ⟨text ▸ not_admits_of_garbled garbled, .inr ⟨_, rfl⟩⟩

theorem planGuarded_on {α : Type} {path : PathArg} {f : String → Host → Plan α} {P : String → Prop} :
    (s.planGuarded path f).On P ↔ ∀ l, s.Admits path l → (f (cut l.text) s).On P := by
  unfold planGuarded
  obtain ⟨l, ha, h⟩ | ⟨hno, ⟨_, _, h⟩ | ⟨_, h⟩⟩ := guardPath_cases hs path
  · rw [h]
    show ((f (s.absolute (cut l.text)) s).map (Guarded.passed (cut l.text))).On P ↔ _
    rw [Plan.on_map, absolute_cut_text]
    exact ⟨fun h m hm => hm.unique ha ▸ h, fun h => h l ha⟩
  · rw [h]
    exact ⟨fun _ l ha => (hno l ha).elim, fun _ => trivial⟩
  · rw [h]
    exact ⟨fun _ l ha => (hno l ha).elim, fun _ => trivial⟩

/-- A plan to use one path is on accepted paths unless the io functions use another path than the io
    jail has accepted. -/
theorem planGuarded_on_accepts_iff {α : Type} {path : PathArg} {f : String → Host → Plan α}
    (hf : ∀ path, (f path s).On s.Accepts ↔ s.Accepts path) :
    (s.planGuarded path f).On s.Accepts ↔ ¬ ∃ l, s.Admits path l ∧ s.Slips l := by
  refine (planGuarded_on hs).trans ⟨fun h ⟨l, ha, hslips⟩ => ?_, fun h l ha => ?_⟩
  · exact (accepts_cut_iff ha).mp ((hf _).mp (h l ha)) hslips
  · exact (hf _).mpr ((accepts_cut_iff ha).mpr fun hslips => h ⟨l, ha, hslips⟩)

/-- Where two paths are used, neither may be another one than the io jail has accepted. -/
theorem planRename_on_accepts_iff (source target : PathArg) :
    (s.plan (.renameFile source target)).On s.Accepts ↔ ¬ s.Strays (.renameFile source target) := by
  unfold plan
  dsimp only
  obtain ⟨l, hl, h⟩ | ⟨hno, ⟨_, _, h⟩ | ⟨_, h⟩⟩ := guardPath_cases hs source
  · rw [h]
    dsimp only
    rw [planGuarded_on hs, absolute_cut_text]
    refine ⟨fun h ⟨l', m, hl', hm, hslips⟩ => ?_, fun h m hm => ?_⟩
    · obtain ⟨hsource, htarget⟩ := h m hm
      obtain rfl := hl.unique hl'
      exact hslips.elim ((accepts_cut_iff hl).mp hsource) ((accepts_cut_iff hm).mp htarget)
    · exact ⟨(accepts_cut_iff hl).mpr fun hslips => h ⟨l, m, hl, hm, .inl hslips⟩,
        (accepts_cut_iff hm).mpr fun hslips => h ⟨l, m, hl, hm, .inr hslips⟩⟩
  · rw [h]
    exact ⟨fun _ ⟨l, _, hl, _⟩ => hno l hl, fun _ => trivial⟩
  · rw [h]
    exact ⟨fun _ ⟨l, _, hl, _⟩ => hno l hl, fun _ => trivial⟩

end

/-- Reading a text is on the path of the text. -/
theorem planText_on {l : Location} {P : String → Prop} (hl : P l.text) : (s.planText l.text).On P := by
  unfold planText whole
  rcases hc : l.text.contains '\x00' with _ | _
  · show P (s.absolute l.text)
    rwa [absolute_text]
  · trivial

/-- The plan for an effect is on accepted paths unless the effect strays from them. -/
theorem plan_on_accepts_iff (hs : s.policy = {}) {a : Actor} {e : Effect} (he : a.May .free e)
    (hopen : ∀ f ∈ s.files, f.isSink = false) : (s.plan e).On s.Accepts ↔ ¬ s.Strays e := by
  cases e with
  | readJson path =>
    refine ⟨fun _ h => h, fun _ => ?_⟩
    unfold plan
    dsimp only
    rcases hl : refusal (s.jsonRoots.resolve s.tree s.around path) with e | l
    · trivial
    · exact Plan.on_map.mpr (planText_on ⟨path, l, rfl, .inr (.inr (refusal_eq_ok hl))⟩)
  | writeJson path tree =>
    refine ⟨fun _ h => h, fun _ => ?_⟩
    unfold plan
    dsimp only
    rcases hl : refusal (s.jsonRoots.resolve s.tree s.around path) with e | l
    · trivial
    · dsimp only
      rcases hw : whole l.text with e | path'
      · trivial
      · obtain rfl := whole_eq_ok hw
        exact ⟨path, l, rfl, .inr (.inr (refusal_eq_ok hl))⟩
  | loadScript path =>
    refine ⟨fun _ h => h, fun _ => ?_⟩
    cases path with
    | none => trivial
    | some path =>
      unfold plan
      dsimp only
      rcases hl : refusal (s.scriptJail.resolve s.tree s.around path) with e | l
      · trivial
      · exact Plan.on_map.mpr (planText_on ⟨path, l, rfl, .inr (.inl (refusal_eq_ok hl))⟩)
  | isModule path =>
    refine ⟨fun _ h => h, fun _ => ?_⟩
    unfold plan
    dsimp only
    rcases hl : s.scriptJail.resolve s.tree s.around path with e | l
    · trivial
    · dsimp only
      split
      · trivial
      · exact ⟨path, l, rfl, .inr (.inl hl)⟩
  | openFile path mode =>
    exact planGuarded_on_accepts_iff hs (f := fun path s => .call (.openFile path mode) s id) fun _ => .rfl
  | removeFile path =>
    exact planGuarded_on_accepts_iff hs (f := fun path s => .call (.remove path) s id) fun _ => .rfl
  | renameFile source target => exact planRename_on_accepts_iff hs source target
  | listDirectory path =>
    refine ⟨fun _ h => h, fun _ => ?_⟩
    unfold plan
    dsimp only
    rw [ioPath_eq hs]
    rcases hl : s.ioJail.resolve s.tree s.around path with e | l
    · trivial
    · show Plan.On _ (match whole l.text with
        | .error e => _
        | .ok path => .call (.list (s.absolute path)) s id)
      rcases hw : whole l.text with e | path'
      · trivial
      · obtain rfl := whole_eq_ok hw
        show s.Accepts (s.absolute l.text)
        rw [absolute_text]
        exact ⟨path, l, rfl, .inl hl⟩
  -- looking for a file goes through no jail, so it strays exactly if none accepts the path
  | probe path => exact Classical.not_not.symm
  | temporaryFile => exact ⟨False.elim, fun h => h trivial⟩
  | openProcess command mode | execute command => exact absurd he Bool.false_ne_true
  | close n =>
    refine ⟨fun _ h => h, fun _ => ?_⟩
    unfold plan
    dsimp only
    rcases hn : s.file? n with _ | f
    · trivial
    · rw [Option.any_some, hopen f (mem_of_file? hn)]
      trivial
  | _ => exact ⟨fun _ h => h, fun _ => trivial⟩

/-! ## What effects leave as it is -/

/-- Whether scripts are locked in: all flags are off, and no process waits for what is written to a
    file. -/
structure Locked (s : Host) : Prop where
  policy : s.policy = {}
  noSinks : ∀ f ∈ s.files, f.isSink = false

namespace Locked

variable {s' : Host}

theorem congr (hs : s.Locked) (hp : s'.policy = s.policy) (hf : s'.files = s.files) : s'.Locked :=
  ⟨hp.trans hs.policy, hf ▸ hs.noSinks⟩

theorem records (hs : s.Locked) (rs : List LogRecord) : (s.records rs).Locked :=
  List.foldlRecOn (motive := Locked) _ _ hs fun _ h _ _ => h.congr rfl rfl

theorem keep (hs : s.Locked) {f : OpenFile} (hf : f.isSink = false) : (s.keep f).2.Locked := by
  refine ⟨hs.policy, fun g hg => ?_⟩
  rcases Array.mem_push.mp hg with hg | rfl
  · exact hs.noSinks g hg
  · exact hf

theorem putFile (hs : s.Locked) (n : Nat) (t : Tree) {f : OpenFile} (hf : f.isSink = false) :
    (s.putFile n t f).Locked := by
  refine ⟨hs.policy, fun g hg => ?_⟩
  rcases Table.mem_of_mem_setIfInBounds hg with hg | rfl
  · exact hs.noSinks g hg
  · exact hf

/-- Doing something to all open files that connects none of them to a process. -/
theorem map (hs : s.Locked) (t : Tree) {g : OpenFile → OpenFile} (hg : ∀ f, (g f).isSink = f.isSink) :
    Locked { s with tree := t, files := s.files.map g } := by
  refine ⟨hs.policy, fun f hf => ?_⟩
  obtain ⟨f, hm, rfl⟩ := Array.mem_map.mp hf
  exact (hg f).trans (hs.noSinks f hm)

theorem guardPath (hs : s.Locked) (path : PathArg) : (s.guardPath path).2.Locked := by
  unfold Host.guardPath
  split
  · exact hs
  · split
    · exact hs
    · split
      · exact hs
      · exact hs.congr rfl rfl

theorem guarded (hs : s.Locked) {α : Type} (path : PathArg) {f : String → Host → α × Host}
    (hf : ∀ path s', Locked s' → (f path s').2.Locked) : (s.guarded path f).2.Locked := by
  have hg := hs.guardPath path
  unfold Host.guarded
  rcases hp : s.guardPath path with ⟨text | e | path, s'⟩
  · rwa [hp] at hg
  · rwa [hp] at hg
  · rw [hp] at hg
    exact hf _ _ hg

theorem openFile (hs : s.Locked) (path : String) (mode : Bytes) : (s.openFile path mode).2.Locked := by
  unfold Host.openFile
  split
  · exact hs
  · split
    · exact hs
    · rename_i tree f he
      have ht : Locked { s with tree } := hs.congr rfl rfl
      exact ht.keep (OpenFile.isSink_openFile he)

theorem removeFile (hs : s.Locked) (path : String) : (s.removeFile path).2.Locked := by
  unfold Host.removeFile
  split
  · exact hs.map _ fun f => OpenFile.isSink_detach ..
  · exact hs
  · exact hs
  · exact hs

theorem renameFile (hs : s.Locked) (source target : String) : (s.renameFile source target).2.Locked := by
  have hfiles : ∀ (tree : Tree) (l m : Location), Locked { s with
      tree, files := if l = m then s.files
        else s.files.map fun f => (f.detach s.tree m).renamed l m } := by
    intro tree l m
    split
    · exact hs.congr rfl rfl
    · exact hs.map _ fun f => (OpenFile.isSink_renamed ..).trans (OpenFile.isSink_detach ..)
  unfold Host.renameFile
  split
  · exact hfiles ..
  · exact hs
  · exact hs
  · exact hs
  · exact hs

theorem closeFile (hs : s.Locked) (n : Nat) : (s.closeFile n).2.Locked := by
  unfold Host.closeFile
  split
  · exact hs
  · rename_i f hf
    have hclosed := (OpenFile.isSink_close s.tree f).trans (hs.noSinks f (mem_of_file? hf))
    have hput := hs.putFile n (f.close s.tree).1 hclosed
    split
    · exact hs
    · dsimp only
      split
      · exact hput
      · -- a file that feeds a process is not among the open ones
        rename_i command content hstream
        unfold OpenFile.isSink at hclosed
        rw [hstream] at hclosed
        cases hclosed
      · exact hput

theorem writeJson (hs : s.Locked) (path : String) (tree : Logged Json) :
    (s.writeJson path tree).2.Locked := by
  have hr := hs.records tree.log
  unfold Host.writeJson
  split
  · exact hs
  · dsimp only
    split
    · exact hr
    · split
      · exact hr.congr rfl rfl
      · exact hr

theorem send (hs : s.Locked) (address : String) (values : List BoundaryValue) :
    (s.send address values).2.Locked := by
  have hr := hs.records (s.transport.dispatch address values).log
  unfold Host.send
  dsimp only
  split
  · exact hr.congr rfl rfl
  · exact hr.congr rfl rfl

/-- No effect that scripts may ask for changes the policy or makes a process wait for a file. -/
theorem perform (hs : s.Locked) {a : Actor} {e : Effect} (he : a.May .free e) :
    (s.perform e).2.Locked := by
  cases e with
  | log r => exact hs.congr rfl rfl
  | send address values => exact hs.send address values
  | writeJson path tree => exact hs.writeJson path tree
  | openFile path mode => exact hs.guarded path fun path s' hs => hs.openFile path mode
  | removeFile path => exact hs.guarded path fun path s' hs => hs.removeFile path
  | renameFile source target =>
    have hg := hs.guarded (f := fun path s => (path, s)) source fun _ _ hs => hs
    unfold Host.perform
    dsimp only
    rcases hp : s.guarded source fun path s => (path, s) with ⟨text | e | source, s'⟩
    · rwa [hp] at hg
    · rwa [hp] at hg
    · rw [hp] at hg
      exact hg.guarded target fun target s hs => hs.renameFile _ target
  | temporaryFile => exact hs.keep rfl
  | openProcess command mode | execute command => exact absurd he Bool.false_ne_true
  | read n format =>
    unfold Host.perform
    dsimp only
    split
    · exact hs
    · rename_i f hf
      split
      · exact hs.putFile n _ ((OpenFile.isSink_read ‹_›).trans (hs.noSinks f (mem_of_file? hf)))
      · exact hs
  | write n data =>
    unfold Host.perform
    dsimp only
    split
    · exact hs
    · rename_i f hf
      split
      · exact hs.putFile n _ ((OpenFile.isSink_write ‹_›).trans (hs.noSinks f (mem_of_file? hf)))
      · exact hs
  | seek n whence offset =>
    unfold Host.perform
    dsimp only
    split
    · exact hs
    · rename_i f hf
      split
      · exact hs.putFile n _ ((OpenFile.isSink_seek ‹_›).trans (hs.noSinks f (mem_of_file? hf)))
      · exact hs
  | flush n =>
    unfold Host.perform
    dsimp only
    split
    · exact hs
    · rename_i f hf
      exact hs.putFile n _ ((OpenFile.isSink_flush ..).trans (hs.noSinks f (mem_of_file? hf)))
  | close n => exact hs.closeFile n
  | requestMenu | clock | time => exact hs.congr rfl rfl
  | _ => exact hs

end Locked

end Host

end OscHost
