import OscHost.Proofs.HostCalls
import OscHost.Script.Library
/-!
  Functions that take paths.

  Six functions of the io and os libraries take paths and watch them: what they are given is handed to
  the io jail, and the function behind the guard is called with what the jail makes of it.  That
  function is the same one on a host whose io jail is lifted, where every path stands for itself.  So
  it is said here what a guard does in terms of the function that it guards: either it calls it, with
  the accepted paths in the place of the requested ones, or it answers nil and a message.

  There is a third thing that it can do.  A path that is not in UTF-8 never gets to the jail, and the
  script gets an error instead of an answer.
-/

namespace OscHost

open Files Script

/-! ## Hosts that differ in their policy -/

namespace Host

/-- The host under another policy. -/
def under (s : Host) (p : Policy) : Host := { s with policy := p }

/-- The host with its io jail lifted. -/
def lifted (s : Host) : Host := s.under { s.policy with unrestrictedFiles := true }

/-- Whether what is done at a path asks for no policy and leaves it as it is. -/
def Impartial {α : Type} (g : String → Host → α × Host) : Prop :=
  ∀ path s p, g path (s.under p) = ((g path s).1, (g path s).2.under p)

theorem openFile_impartial (mode : Bytes) : Impartial fun path s => s.openFile path mode := by
  intro path s p
  dsimp only
  unfold openFile
  cases Mode.parse? (mode.toChars.takeWhile (· != '\x00')) with
  | none => rfl
  | some mode =>
    dsimp only [under]
    rcases Files.openFile s.tree path mode with e | ⟨tree, f⟩ <;> rfl

theorem removeFile_impartial : Impartial fun path s => s.removeFile path := by
  intro path s p
  dsimp only [removeFile, under]
  rcases s.tree.remove path with e | tree <;> rcases s.tree.locate path with e | (l | l) <;> rfl

theorem renameFile_impartial (source : String) :
    Impartial fun target s => s.renameFile source target := by
  intro target s p
  dsimp only [renameFile, under]
  rcases s.tree.rename source target with e | tree <;> rcases s.tree.locate source with e | (l | l) <;>
    rcases s.tree.locate target with e | m <;> rfl

variable {α : Type} {s : Host} {g : String → Host → α × Host} {path : PathArg} {l : Location}

theorem Impartial.policy (hg : Impartial g) (path : String) (s : Host) :
    (g path s).2.policy = s.policy :=
  congrArg (fun r => r.2.policy) (hg path s s.policy)

/-- What the io jail admits is used where it leads, and nothing else is used. -/
theorem guarded_cases (hs : s.policy.unrestrictedFiles = false) (path : PathArg)
    (g : String → Host → α × Host) :
    (∃ l, s.Admits path l ∧
      s.guarded path g = (.passed (cut l.text) (g (cut l.text) s).1, (g (cut l.text) s).2)) ∨
    (∃ why s', s.Refuses path why s' ∧
      s.guarded path g = (.refused (HostError.policyViolation why).message, s')) ∨
    ∃ b e, path = .text b ∧ Text.Utf8.decode b = .error e ∧ s.guarded path g = (.unreadable e, s) := by
  have hverdict := guardPath_verdict hs path
  unfold guarded
  generalize s.guardPath path = r at hverdict ⊢
  cases hverdict with
  | @passed l admitted =>
    refine .inl ⟨l, admitted, ?_⟩
    dsimp only
    rw [absolute_cut_text]
  | refused refuses => exact .inr (.inl ⟨_, _, refuses, rfl⟩)
  | unreadable text garbled => exact .inr (.inr ⟨_, _, text, garbled, rfl⟩)

theorem perform_renameFile (source target : PathArg) :
    s.perform (.renameFile source target) =
      match s.guarded source fun path s => (path, s) with
      | (.refused text, s) => (.refused text, s)
      | (.unreadable e, s) => (.unreadable e, s)
      | (.passed _ source, s) => s.guarded target fun target s => s.renameFile source target := rfl

/-- Without the jail every path stands for itself. -/
theorem guarded_lifted (l : Location) :
    s.lifted.guarded (.text l.text.toUTF8) g =
      (.passed (cut l.text) (g (cut l.text) s.lifted).1, (g (cut l.text) s.lifted).2) := by
  have hpath : s.lifted.ioPath l.text = .ok l.text := rfl
  have hpassed : s.lifted.guardPath (.text l.text.toUTF8) = (.passed (cut l.text) (), s.lifted) := by
    unfold guardPath
    dsimp only
    rw [decode_toUTF8]
    dsimp only
    rw [hpath]
  rw [guarded, hpassed]
  dsimp only
  rw [absolute_cut_text]

/-- The first of some paths that the io jail does not admit. -/
inductive Stops (s : Host) : List PathArg → PathArg → Prop
  | here {path : PathArg} {rest : List PathArg} (h : ∀ l, ¬ s.Admits path l) :
    Stops s (path :: rest) path
  | later {first path : PathArg} {rest : List PathArg} {l : Location} (h : s.Admits first l)
      (stops : Stops s rest path) : Stops s (first :: rest) path

theorem Stops.unique {paths : List PathArg} {p q : PathArg} (hp : s.Stops paths p)
    (hq : s.Stops paths q) : p = q := by
  induction hp with
  | here h =>
    cases hq with
    | here => rfl
    | later ha => exact absurd ha (h _)
  | later ha _ ih =>
    cases hq with
    | here h => exact absurd ha (h _)
    | later _ stops => exact ih stops

theorem Stops.not_admitted {paths : List PathArg} {p : PathArg} (hp : s.Stops paths p)
    (ls : List Location) : ¬ List.Forall₂ s.Admits paths ls := by
  intro h
  induction hp generalizing ls with
  | here h' =>
    cases h with
    | cons ha _ => exact h' _ ha
  | later _ _ ih =>
    cases h with
    | cons _ hrest => exact ih _ hrest

/-- Whether the first of some paths that the io jail does not admit is a text that is not in UTF-8. -/
def Garbled (s : Host) (paths : List PathArg) : Prop :=
  ∃ b e, s.Stops paths (.text b) ∧ Text.Utf8.decode b = .error e

end Host

namespace Script

open Library

/-! ## Discretion -/

/-- Whether an action asks the host for nothing but which files are open, until it turns to something
    else. -/
inductive Action.Discreet : Action → Prop
  | done {vs : List Value} {h : Heap} : Discreet (.done vs h)
  | fail {v : Value} {h : Heap} : Discreet (.fail v h)
  | isOpen {n : Nat} {h : Heap} {k : Bool → Heap → Action} (hk : ∀ r h', Discreet (k r h')) :
    Discreet (.ask (.isOpen n) h k)

/-- Hosts with the same files open get the same out of it, and stay as they are. -/
theorem Action.Discreet.answered {a : Action} (ha : a.Discreet) (s s' : Host)
    (hfiles : ∀ n, s'.file? n = s.file? n) : a.answered s' = ((a.answered s).1, s') := by
  induction ha with
  | done => rfl
  | fail => rfl
  | @isOpen n h k _ ih =>
    show (k (s'.file? n).isSome h).answered s' = ((k (s.file? n).isSome h).answered s |>.1, s')
    rw [hfiles]
    exact ih _ _

namespace Lib

variable {α β : Type}

/-- Whether a computation asks the host for nothing else. -/
def Discreet (x : Lib α) : Prop :=
  ∀ site k h, (∀ a h', (k a h').Discreet) → (x site k h).Discreet

theorem Discreet.action {x : Lib (List Value)} (hx : x.Discreet) (site : Site) (h : Heap) :
    (x.action site h).Discreet :=
  hx site .done h fun _ _ => .done

theorem discreet_pure (a : α) : (pure a : Lib α).Discreet := fun _ _ h hk => hk a h

theorem Discreet.bind {x : Lib α} {f : α → Lib β} (hx : x.Discreet) (hf : ∀ a, (f a).Discreet) :
    (x >>= f).Discreet :=
  fun site k h hk => hx site _ h fun a h' => hf a site k h' hk

theorem discreet_site : site.Discreet := fun s _ h hk => hk s h

theorem discreet_read (f : Heap → α) : (read f).Discreet := fun _ _ h hk => hk (f h) h

theorem discreet_modify (f : Heap → Heap) : (modify f).Discreet := fun _ _ h hk => hk () (f h)

theorem discreet_update (f : Heap → α × Heap) : (update f).Discreet := fun _ _ _ hk => hk _ _

theorem discreet_throw (v : Value) : (throw v : Lib α).Discreet := fun _ _ _ _ => .fail

theorem discreet_isOpen (n : Nat) : (ask (.isOpen n)).Discreet := fun _ _ _ hk => .isOpen hk

theorem discreet_calledFrom {x : Lib α} (hx : x.Discreet) (position : String × Nat) (name : String) :
    (Base.calledFrom position name x).Discreet :=
  fun _ k h hk => hx _ k h hk

theorem discreet_raise (text : Bytes) : (raise text : Lib α).Discreet :=
  discreet_site.bind fun _ => discreet_throw _

theorem discreet_failHost (message : String) : (failHost message : Lib α).Discreet :=
  (discreet_update _).bind fun _ => discreet_throw _

theorem discreet_ownName : ownName.Discreet := by
  refine discreet_site.bind fun s => ?_
  split
  · exact discreet_pure _
  · exact (discreet_read _).bind fun _ => discreet_pure _
  · exact discreet_pure _

theorem Discreet.ite {c : Prop} [Decidable c] {x y : Lib α} (hx : c → x.Discreet)
    (hy : ¬ c → y.Discreet) : (if c then x else y).Discreet := by
  split
  · exact hx ‹_›
  · exact hy ‹_›

theorem discreet_badArgument (n : Nat) (why : Bytes) : (badArgument n why : Lib α).Discreet := by
  refine discreet_ownName.bind fun (origin, name) => ?_
  exact .ite (fun _ => discreet_raise _) fun _ => discreet_raise _

theorem discreet_badType (args : Args) (n : Nat) (expected : String) :
    (badType args n expected : Lib α).Discreet := by
  unfold badType
  extract_lets next
  have hnext : ∀ got, (next got).Discreet := fun got => discreet_badArgument _ _
  split
  · split
    · exact (discreet_pure _).bind hnext
    · exact (discreet_read _).bind hnext
  · exact (discreet_pure _).bind hnext

theorem discreet_textArg (args : Args) (n : Nat) : (textArg args n).Discreet := by
  unfold textArg
  split
  · exact discreet_pure _
  · exact discreet_badType _ _ _

theorem discreet_textArg? (args : Args) (n : Nat) : (textArg? args n).Discreet := by
  unfold textArg?
  split
  · exact discreet_pure _
  · exact (discreet_textArg args n).bind fun _ => discreet_pure _

end Lib

namespace Library.Files

open Lib

theorem discreet_guarded {α : Type} (r : Guarded α) {go : String → α → Lib (List Value)}
    (hgo : ∀ path a, (go path a).Discreet) : (guarded r go).Discreet := by
  cases r with
  | refused text => exact discreet_pure _
  | unreadable e => exact discreet_failHost _
  | passed path a => exact discreet_calledFrom (hgo path a) _ _

theorem discreet_newFile (file : Nat) : (newFile file).Discreet :=
  (discreet_update _).bind fun _ => discreet_pure _

theorem discreet_openOrComplain (path : String) (r : Opening) :
    (openOrComplain path r).Discreet := by
  cases r with
  | badMode => exact discreet_badArgument _ _
  | failed e => exact discreet_raise _
  | opened file => exact discreet_newFile file

theorem discreet_newReader (file : Value) (formats : List Value) (closes : Bool) :
    (newReader file formats closes).Discreet :=
  .ite (fun _ => discreet_badArgument _ _) fun _ =>
    (discreet_update _).bind fun _ => discreet_pure _

theorem discreet_fileArg (args : Args) (n : Nat) : (fileArg args n).Discreet := by
  refine Discreet.bind ?_ fun file => (discreet_isOpen file).bind fun r =>
    .ite (fun _ => discreet_pure _) fun _ => discreet_raise _
  refine (discreet_read _).bind fun r => ?_
  split
  · exact discreet_pure _
  · exact discreet_badType _ _ _

theorem discreet_defaultFile (isInput : Bool) : (defaultFile isInput).Discreet := by
  refine (discreet_read _).bind fun v => (discreet_read _).bind fun r => ?_
  split
  · exact discreet_raise _
  · exact (discreet_isOpen _).bind fun r => .ite (fun _ => discreet_pure _) fun _ => discreet_raise _

end Library.Files

/-! ## The six functions -/

/-- The functions that take paths. -/
inductive Watched
  | ioOpen
  | ioLines
  | ioInput
  | ioOutput
  | osRemove
  | osRename

namespace Watched

/-- The function as scripts have it. -/
def function : Watched → Builtin
  | ioOpen => .ioOpen
  | ioLines => .ioLines
  | ioInput => .ioInput
  | ioOutput => .ioOutput
  | osRemove => .osRemove
  | osRename => .osRename

/-- The arguments of a call that are taken for paths.  Some functions take an open file too, or nothing
    for the file that is in use already. -/
def paths : Watched → Args → List PathArg
  | ioOpen, args | osRemove, args => [Files.pathArg (args.get 1)]
  | ioLines, args | ioInput, args | ioOutput, args =>
    if Files.isHandle (args.get 1) then [] else [Files.pathArg (args.get 1)]
  | osRename, args => [Files.pathArg (args.get 1), Files.pathArg (args.get 2)]

/-- What a call comes to, and the host after it. -/
def answer (f : Watched) (site : Site) (h : Heap) (args : Args) (s : Host) : Action × Host :=
  ((invoke (.builtin f.function) args).action site h).answered s

/-- The same without the guard: the io jail is lifted for the call. -/
def stockAnswer (f : Watched) (site : Site) (h : Heap) (args : Args) (s : Host) : Action × Host :=
  ((f.answer site h args s.lifted).1, (f.answer site h args s.lifted).2.under s.policy)

/-- The arguments of a call with locations in the place of its first ones. -/
def resolved (ls : List Location) (args : Args) : Args :=
  ls.map (fun l => Value.text l.text) ++ args.drop ls.length

/-- What a guard may do: call the function behind it, with what the io jail makes of the paths and the
    other arguments as they are, or refuse one of them with nil and a message.  The heap stays as it is
    then, and all that happens to the host is that the refusal may be logged. -/
inductive Watches (f : Watched) (site : Site) (h : Heap) (args : Args) (s : Host) :
    Action × Host → Prop
  | passed {ls : List Location} (admitted : List.Forall₂ s.Admits (f.paths args) ls) :
    Watches f site h args s (f.stockAnswer site h (resolved ls args) s)
  | refused {path : PathArg} {why : String} {s' : Host} (stops : s.Stops (f.paths args) path)
      (refuses : s.Refuses path why s') :
    Watches f site h args s (.done [.nil, .text (HostError.policyViolation why).message] h, s')

variable {site : Site} {h : Heap} {args : Args} {s : Host} {α : Type}

/-- Goes on with the answer of a guard, and with the host that gave it. -/
def goOn (go : String → α → Lib (List Value)) (site : Site) (h : Heap) (r : Guarded α × Host) :
    Action × Host :=
  ((Files.guarded r.1 go).action site h).answered r.2

/-- What follows on an admitted path is the same when the jail is lifted for it. -/
theorem goOn_lifted {go : String → α → Lib (List Value)} (hgo : ∀ path a, (go path a).Discreet)
    {g : String → Host → α × Host} (hg : Host.Impartial g) (path : String) (site : Site) (h : Heap)
    (s : Host) :
    goOn go site h (.passed path (g path s).1, (g path s).2) =
      ((goOn go site h (.passed path (g path s.lifted).1, (g path s.lifted).2)).1,
        (goOn go site h (.passed path (g path s.lifted).1, (g path s.lifted).2)).2.under s.policy) := by
  have hdiscreet := (Files.discreet_guarded (.passed path (g path s).1) hgo).action site h
  have hsame := hdiscreet.answered (g path s).2
    ((g path s).2.under { s.policy with unrestrictedFiles := true }) fun _ => rfl
  have hback : ((g path s).2.under { s.policy with unrestrictedFiles := true }).under s.policy =
      (g path s).2 := by
    rw [← hg.policy path s]
    rfl
  rw [Host.lifted, hg path s]
  unfold goOn
  dsimp only
  rw [hsame, hback]
  exact hdiscreet.answered _ _ fun _ => rfl

/-- Every call ends in one of three ways. -/
inductive Fate (s : Host) (h : Heap) (stock : List Location → Action × Host) (paths : List PathArg) :
    Action × Host → Prop
  | passed {ls : List Location} (admitted : List.Forall₂ s.Admits paths ls) :
    Fate s h stock paths (stock ls)
  | refused {path : PathArg} {why : String} {s' : Host} (stops : s.Stops paths path)
      (refuses : s.Refuses path why s') :
    Fate s h stock paths (.done [.nil, .text (HostError.policyViolation why).message] h, s')
  | raised {id : Nat} {h' : Heap} {message : String} (garbled : s.Garbled paths)
      (failure : h'.objects[id]? = some (.failure message)) :
    Fate s h stock paths (.fail (.object id) h', s)

/-- A path that is admitted leaves the rest to those after it. -/
theorem Fate.later {stock : List Location → Action × Host} {first : PathArg} {l : Location}
    {rest : List PathArg} {r : Action × Host} (ha : s.Admits first l)
    (hr : Fate s h (fun ls => stock (l :: ls)) rest r) : Fate s h stock (first :: rest) r := by
  cases hr with
  | passed admitted => exact .passed (.cons ha admitted)
  | refused stops refuses => exact .refused (.later ha stops) refuses
  | raised garbled failure =>
    obtain ⟨b, e, stops, hb⟩ := garbled
    exact .raised ⟨b, e, .later ha stops, hb⟩ failure

/-- A path that is not admitted decides the fate of the call. -/
theorem fate_of_refuses {stock : List Location → Action × Host} {first : PathArg} {why : String}
    {rest : List PathArg} {s' : Host} (go : String → α → Lib (List Value))
    (hrefuses : s.Refuses first why s') :
    Fate s h stock (first :: rest)
      (goOn go site h (.refused (HostError.policyViolation why).message, s')) :=
  .refused (.here hrefuses.not_admits) hrefuses

theorem fate_of_garbled {stock : List Location → Action × Host} {b : Bytes} {e : Text.Utf8.Invalid}
    {rest : List PathArg} (go : String → α → Lib (List Value)) (hb : Text.Utf8.decode b = .error e) :
    Fate s h stock (.text b :: rest) (goOn go site h (.unreadable e, s)) :=
  .raised ⟨b, e, .here (Host.not_admits_of_garbled hb), hb⟩ Array.getElem?_push_size

/-- The fate of a call with one path, or with the last of some. -/
theorem fate_of_last (hs : s.policy.unrestrictedFiles = false) {go : String → α → Lib (List Value)}
    (hgo : ∀ path a, (go path a).Discreet) {g : String → Host → α × Host} (hg : Host.Impartial g)
    {stock : List Location → Action × Host} {path : PathArg}
    (hstock : ∀ l, s.Admits path l → stock [l] =
      ((goOn go site h (s.lifted.guarded (.text l.text.toUTF8) g)).1,
        (goOn go site h (s.lifted.guarded (.text l.text.toUTF8) g)).2.under s.policy)) :
    Fate s h stock [path] (goOn go site h (s.guarded path g)) := by
  obtain ⟨l, ha, hr⟩ | ⟨why, s', hrefuses, hr⟩ | ⟨b, e, rfl, hb, hr⟩ := Host.guarded_cases hs path g
  · rw [hr, goOn_lifted hgo hg, ← Host.guarded_lifted, ← hstock l ha]
    exact .passed (.cons ha .nil)
  · rw [hr]
    exact fate_of_refuses go hrefuses
  · rw [hr]
    exact fate_of_garbled go hb

/-- A call that is discreet has nothing to do with the io jail. -/
theorem answer_of_discreet {f : Watched} (hf : (invoke (.builtin f.function) args).Discreet) :
    f.answer site h args s = f.stockAnswer site h args s := by
  have hdiscreet := hf.action site h
  have hself : f.answer site h args s = ((f.answer site h args s).1, s) :=
    hdiscreet.answered _ _ fun _ => rfl
  have hlifted : f.answer site h args s.lifted = ((f.answer site h args s).1, s.lifted) :=
    hdiscreet.answered _ _ fun _ => rfl
  rw [stockAnswer, hlifted]
  exact hself

/-- No argument is no path. -/
theorem exists_cons_of_admits {l : Location} (ha : s.Admits (Files.pathArg (args.get 1)) l) :
    ∃ a rest, args = a :: rest := by
  cases args with
  | nil =>
    obtain ⟨_, _, hp, _⟩ := ha
    cases hp
  | cons a rest => exact ⟨a, rest, rfl⟩

theorem fate_ioOpen (hs : s.policy.unrestrictedFiles = false) (site : Site) (h : Heap) (args : Args) :
    Fate s h (fun ls => ioOpen.stockAnswer site h (resolved ls args) s) (ioOpen.paths args)
      (ioOpen.answer site h args s) := by
  refine fate_of_last hs (fun path r => (Lib.discreet_textArg? args 2).bind fun _ => ?_)
    (Host.openFile_impartial (Files.modeOf (args.get 2) "r")) fun l ha => ?_
  · cases r with
    | badMode => exact Lib.discreet_badArgument _ _
    | failed e => exact Lib.discreet_pure _
    | opened file => exact (Files.discreet_newFile file).bind fun _ => Lib.discreet_pure _
  · obtain ⟨a, rest, rfl⟩ := exists_cons_of_admits ha
    rfl

theorem fate_osRemove (hs : s.policy.unrestrictedFiles = false) (site : Site) (h : Heap)
    (args : Args) :
    Fate s h (fun ls => osRemove.stockAnswer site h (resolved ls args) s) (osRemove.paths args)
      (osRemove.answer site h args s) := by
  refine fate_of_last hs (fun path r => Lib.discreet_pure _) Host.removeFile_impartial fun l ha => ?_
  obtain ⟨a, rest, rfl⟩ := exists_cons_of_admits ha
  rfl

theorem fate_osRename (hs : s.policy.unrestrictedFiles = false) (site : Site) (h : Heap)
    (args : Args) :
    Fate s h (fun ls => osRename.stockAnswer site h (resolved ls args) s) (osRename.paths args)
      (osRename.answer site h args s) := by
  let go (_ : String) (r : Except FileError Unit) : Lib (List Value) := pure (Files.outcome none r)
  show Fate s h _ [Files.pathArg (args.get 1), Files.pathArg (args.get 2)]
    (goOn go site h (s.perform (.renameFile (Files.pathArg (args.get 1)) (Files.pathArg (args.get 2)))))
  rw [Host.perform_renameFile]
  obtain ⟨l, ha, hr⟩ | ⟨why, s', hrefuses, hr⟩ | ⟨b, e, hp, hb, hr⟩ :=
    Host.guarded_cases hs (Files.pathArg (args.get 1)) fun path s => (path, s)
  · -- the first path is admitted, so all is up to the second one
    rw [hr]
    dsimp only
    refine .later ha (fate_of_last hs (fun path r => Lib.discreet_pure _)
      (Host.renameFile_impartial (Host.cut l.text)) fun m hm => ?_)
    rcases args with _ | ⟨a, _ | ⟨b, rest⟩⟩
    · obtain ⟨_, _, hp, _⟩ := ha
      cases hp
    · obtain ⟨_, _, hp, _⟩ := hm
      cases hp
    · have hrename : s.lifted.perform (.renameFile (.text l.text.toUTF8) (.text m.text.toUTF8)) =
          s.lifted.guarded (.text m.text.toUTF8) fun target s => s.renameFile (Host.cut l.text) target := by
        rw [Host.perform_renameFile, Host.guarded_lifted]
      rw [← hrename]
      rfl
  · rw [hr]
    exact fate_of_refuses go hrefuses
  · rw [hr, hp]
    exact fate_of_garbled go hb

/-- Without a path the file that is in use is told, or the one that is given is put in its place. -/
theorem discreet_selectFile {isInput : Bool} (hhandle : Files.isHandle (args.get 1) = true) :
    (Files.selectFile isInput args).Discreet := by
  unfold Files.selectFile
  extract_lets set
  have hset : ∀ v, (set v).Discreet := fun v =>
    (Lib.discreet_modify _).bind fun _ => Lib.discreet_pure _
  clear_value set
  split
  · exact (Lib.discreet_read _).bind fun _ => Lib.discreet_pure _
  · rw [if_pos hhandle]
    exact Lib.discreet_calledFrom ((Files.discreet_fileArg args 1).bind fun _ => hset _) _ _

theorem discreet_ioLines (hhandle : Files.isHandle (args.get 1) = true) :
    (Files.ioLines args).Discreet := by
  unfold Files.ioLines
  split
  · refine Lib.discreet_calledFrom ((Files.discreet_defaultFile true).bind fun _ => ?_) _ _
    exact (Files.discreet_newReader _ _ _).bind fun _ => Lib.discreet_pure _
  · rw [if_pos hhandle]
    exact Lib.discreet_calledFrom ((Lib.discreet_textArg args 1).bind fun _ => Lib.discreet_pure _) _ _

/-- A file that was opened at a path is put in the place of the one in use. -/
def chosen (isInput : Bool) (path : String) (r : Opening) : Lib (List Value) := do
  let v ← Files.openOrComplain path r
  Lib.modify fun h => { h with
    roots := if isInput then { h.roots with input := v } else { h.roots with output := v } }
  return [v]

theorem selectFile_of_path {isInput : Bool} (hpath : Files.isHandle (args.get 1) = false) :
    Files.selectFile isInput args = (do
      let r ← Lib.ask (.openFile (Files.pathArg (args.get 1)) (if isInput then "r" else "w"))
      Files.guarded r (chosen isInput)) := by
  unfold Files.selectFile
  generalize args.get 1 = v at hpath ⊢
  cases v <;> first | rfl | cases hpath

theorem fate_selectFile (hs : s.policy.unrestrictedFiles = false) {f : Watched} {isInput : Bool}
    (hf : ∀ args, invoke (.builtin f.function) args = Files.selectFile isInput args) (site : Site)
    (h : Heap) (args : Args) :
    Fate s h (fun ls => f.stockAnswer site h (resolved ls args) s)
      (if Files.isHandle (args.get 1) then [] else [Files.pathArg (args.get 1)])
      (f.answer site h args s) := by
  by_cases hhandle : Files.isHandle (args.get 1) = true
  · rw [if_pos hhandle, answer_of_discreet (hf args ▸ discreet_selectFile hhandle)]
    exact @Fate.passed s h _ _ [] .nil
  · rw [if_neg hhandle, answer, hf, selectFile_of_path (Bool.eq_false_iff.mpr hhandle)]
    refine fate_of_last hs (fun path r => (Files.discreet_openOrComplain path r).bind fun v => ?_)
      (Host.openFile_impartial (if isInput then "r" else "w")) fun l ha => ?_
    · exact (Lib.discreet_modify _).bind fun _ => Lib.discreet_pure _
    · obtain ⟨a, rest, rfl⟩ := exists_cons_of_admits ha
      rw [stockAnswer, answer, hf, selectFile_of_path rfl]
      rfl

theorem ioLines_of_path (hpath : Files.isHandle (args.get 1) = false) :
    Files.ioLines args = (do
      let r ← Lib.ask (.openFile (Files.pathArg (args.get 1)) "r")
      Files.guarded r fun path r => do
        let file ← Files.openOrComplain path r
        return [← Files.newReader file (args.drop 1) true, .nil, .nil, file]) := by
  unfold Files.ioLines
  generalize args.get 1 = v at hpath ⊢
  cases v <;> first | rfl | cases hpath

theorem fate_ioLines (hs : s.policy.unrestrictedFiles = false) (site : Site) (h : Heap)
    (args : Args) :
    Fate s h (fun ls => ioLines.stockAnswer site h (resolved ls args) s) (ioLines.paths args)
      (ioLines.answer site h args s) := by
  by_cases hhandle : Files.isHandle (args.get 1) = true
  · rw [paths, if_pos hhandle, answer_of_discreet (f := ioLines) (discreet_ioLines hhandle)]
    exact @Fate.passed s h _ _ [] .nil
  · have hlines := ioLines_of_path (Bool.eq_false_iff.mpr hhandle)
    rw [paths, if_neg hhandle]
    show Fate s h _ _ (((Files.ioLines args).action site h).answered s)
    rw [hlines]
    refine fate_of_last hs (fun path r => (Files.discreet_openOrComplain path r).bind fun v => ?_)
      (Host.openFile_impartial "r") fun l ha => ?_
    · exact (Files.discreet_newReader _ _ _).bind fun _ => Lib.discreet_pure _
    · obtain ⟨a, rest, rfl⟩ := exists_cons_of_admits ha
      rfl

theorem fate (hs : s.policy.unrestrictedFiles = false) (f : Watched) (site : Site) (h : Heap)
    (args : Args) :
    Fate s h (fun ls => f.stockAnswer site h (resolved ls args) s) (f.paths args)
      (f.answer site h args s) := by
  cases f with
  | ioOpen => exact fate_ioOpen hs site h args
  | ioLines => exact fate_ioLines hs site h args
  | ioInput => exact fate_selectFile hs (fun _ => rfl) site h args
  | ioOutput => exact fate_selectFile hs (fun _ => rfl) site h args
  | osRemove => exact fate_osRemove hs site h args
  | osRename => exact fate_osRename hs site h args

/-- A refusal is about a path that the jail could look at. -/
theorem not_garbled_of_refuses {paths : List PathArg} {path : PathArg} {why : String} {s' : Host}
    (stops : s.Stops paths path) (refuses : s.Refuses path why s') : ¬ s.Garbled paths := by
  rintro ⟨b, e, stops', hb⟩
  obtain rfl := stops.unique stops'
  cases refuses with
  | outside decoded => cases decoded.symm.trans hb

/-- Where the first path that the jail does not admit is no text for it, an error is raised. -/
theorem raised_of_garbled (hs : s.policy.unrestrictedFiles = false) (f : Watched) (site : Site)
    (h : Heap) (args : Args) (hgarbled : s.Garbled (f.paths args)) :
    ∃ id h' message, f.answer site h args s = (.fail (.object id) h', s) ∧
      h'.objects[id]? = some (.failure message) := by
  have hfate := fate hs f site h args
  obtain ⟨_, _, stops, _⟩ := id hgarbled
  generalize f.answer site h args s = r at hfate ⊢
  cases hfate with
  | passed admitted => exact absurd admitted (stops.not_admitted _)
  | refused stops' refuses => exact absurd hgarbled (not_garbled_of_refuses stops' refuses)
  | @raised id h' message _ failure => exact ⟨id, h', message, rfl, failure⟩

/-- That is nothing that a guard may do. -/
theorem not_watches_of_garbled (hs : s.policy.unrestrictedFiles = false) (f : Watched) (site : Site)
    (h : Heap) (args : Args) (hgarbled : s.Garbled (f.paths args)) :
    ¬ f.Watches site h args s (f.answer site h args s) := by
  obtain ⟨id, h', message, hr, -⟩ := raised_of_garbled hs f site h args hgarbled
  intro hwatches
  rw [hr] at hwatches
  generalize hr' : (Action.fail (.object id) h', s) = r at hwatches
  cases hwatches with
  | passed admitted =>
    obtain ⟨_, _, stops, _⟩ := hgarbled
    exact stops.not_admitted _ admitted
  | refused => cases hr'

/-- Whatever a function that takes paths is called with, it does what a guard may do, exactly unless
    the first path that the io jail does not admit is a text that is not in UTF-8.

    In that case the call ends in an error of the host, and nothing has happened to it. -/
theorem watches_iff (hs : s.policy.unrestrictedFiles = false) (f : Watched) (site : Site) (h : Heap)
    (args : Args) :
    (f.Watches site h args s (f.answer site h args s) ↔ ¬ s.Garbled (f.paths args)) ∧
    (s.Garbled (f.paths args) → ∃ id h' message,
      f.answer site h args s = (.fail (.object id) h', s) ∧
        h'.objects[id]? = some (.failure message)) := by
  refine ⟨⟨fun hwatches hgarbled => ?_, fun hclear => ?_⟩, raised_of_garbled hs f site h args⟩
  · exact not_watches_of_garbled hs f site h args hgarbled hwatches
  · have hfate := fate hs f site h args
    generalize f.answer site h args s = r at hfate ⊢
    cases hfate with
    | passed admitted => exact .passed admitted
    | refused stops refuses => exact .refused stops refuses
    | raised garbled _ => exact absurd garbled hclear

/-- In the maze the way out is admitted, and opened as what the jail has made of it. -/
theorem maze_watches :
    mazeHost.policy.unrestrictedFiles = false ∧
    ¬ mazeHost.Garbled (ioOpen.paths [.text detour]) ∧
    ioOpen.Watches emptySite {} [.text detour] mazeHost
      (ioOpen.answer emptySite {} [.text detour] mazeHost) := by
  have hclear : ¬ mazeHost.Garbled (ioOpen.paths [.text detour]) := by
    rintro ⟨b, e, stops, hb⟩
    have htext : b = detour.toUTF8 := by
      cases stops with
      | here => rfl
      | later _ stops => cases stops
    rw [htext, decode_toUTF8] at hb
    cases hb
  exact ⟨rfl, hclear, (watches_iff rfl ioOpen emptySite {} [.text detour]).1.mpr hclear⟩

/-- A single byte that no text in UTF-8 has makes opening a file raise an error. -/
theorem not_forall_watches :
    ¬ ∀ (f : Watched) (site : Site) (h : Heap) (args : Args) (s : Host),
      s.policy.unrestrictedFiles = false →
      f.Watches site h args s (f.answer site h args s) := by
  intro hall
  let b : Bytes := ⟨#[0xFF]⟩
  obtain ⟨e, hb⟩ : ∃ e, Text.Utf8.decode b = .error e := by
    have hinvalid : String.fromUTF8? b = none := dif_neg (by decide +kernel)
    rw [Text.Utf8.decode, hinvalid]
    exact ⟨_, rfl⟩
  exact not_watches_of_garbled rfl ioOpen emptySite {} [.string b]
    ⟨b, e, .here (Host.not_admits_of_garbled hb), hb⟩
    (hall ioOpen emptySite {} [.string b] mazeHost rfl)

end Watched

end Script

end OscHost
