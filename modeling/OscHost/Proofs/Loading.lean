import OscHost.Host
import OscHost.Proofs.Files.Acceptance
import OscHost.Script.Library.Modules
/-!
  Where code that is loaded comes from.

  Three functions make code of files: `loadfile`, `dofile`, which runs it, and the searcher that
  `require` asks.  All of them go through `Base.loadScript`, so what they can do is said once, as
  a case distinction on one answer of the host (`loadScript_cases`).  A `CodeFile` collects what
  has to be true when that answer is a source: the request was accepted, opening the accepted
  path leads to a regular file, and its text, without a hash line, compiles.

  `Entrance.outcome` says it of all three at once.  Whatever file the code comes from lies
  at a real location, and it lies below the script root exactly when no link at which resolving
  the request stopped leads elsewhere.  A link that resolving cannot get past is followed when
  the file is read: in the `maze` at the end forty links are spent on the way to one that leads
  out, so resolving gives up before it and reading does not.
-/

namespace OscHost.Script

open Files Library

/-! ## Answering -/

/-- Lets the host answer what an action asks until it turns to something else. -/
def Action.answered : Action → Host → Action × Host
  | .ask e h k, s =>
    let (r, s) := s.perform e
    (k r h).answered s
  | a, s => (a, s)

theorem Action.answered_ask {e : Effect} {h : Heap} {k : e.Reply → Heap → Action} {s : Host} :
    (Action.ask e h k).answered s = (k (s.perform e).1 h).answered (s.perform e).2 := rfl

/-! ## Files that scripts are read from -/

/-- A file that a request for a script ends at, with the code in it. -/
structure CodeFile (s : Host) (requested : String) where
  /-- What the script jail makes of the request. -/
  accepted : Location
  /-- Where opening that leads. -/
  place : Location
  content : ByteArray
  text : String
  code : Proto
  resolved : s.scriptJail.resolve s.tree s.around requested = .ok accepted
  opened : s.tree.existing accepted.text = .ok place
  held : s.tree.get? place = some (.file content)
  decoded : Text.Utf8.decode content = .ok text
  compiled : compileText ("@" ++ "/".intercalate (accepted.drop s.scriptJail.root.length)).toUTF8
    (Host.withoutHashLine text) = .ok code

namespace CodeFile

variable {s : Host} {requested : String}

/-- No link is on the way to the file. -/
theorem real (c : CodeFile s requested) : s.tree.Real c.place := by
  refine Tree.real_of_walk .root ?_
    (Tree.walk_of_followText (Tree.existing_eq_ok.mp c.opened))
  exact fun _ hs => Tree.wellNamed_of_mem_steps hs

/-- What compiles is no compiled chunk. -/
theorem isText (c : CodeFile s requested) :
    (Host.withoutHashLine c.text).toUTF8[0]? ≠ some compiledMark := by
  intro hmark
  have h := c.compiled
  rw [compileText, if_pos (show (Bytes.ofText _)[0]? = _ from hmark)] at h
  cases h

/-- The file lies below the root of the script jail exactly when no broken link leads out. -/
theorem below_root_iff (c : CodeFile s requested) :
    s.scriptJail.root <+: c.place ↔
      ∀ b : Tree.BrokenLink s.tree (s.scriptJail.wanted s.around requested),
        ∀ q, b.leadsTo = .ok q → s.scriptJail.root <+: q.location := by
  obtain ⟨hharden, hbelow⟩ := Jail.resolve_eq_ok c.resolved
  have hopened := c.opened
  rw [hharden] at hbelow hopened
  exact below_iff_of_harden Jail.wellNamed_of_mem_wanted hbelow (.opens hopened)

end CodeFile

end OscHost.Script

namespace OscHost.Host

open Files Script

variable {s : Host} {path text : String}

theorem refusal_eq_ok {α : Type} {r : Except Refusal α} {a : α} (h : refusal r = .ok a) :
    r = .ok a := by
  unfold refusal at h
  split at h <;> cases h
  rfl

theorem fileFailure_eq_ok {α : Type} {r : Except FileError α} {a : α}
    (h : fileFailure r = .ok a) : r = .ok a := by
  unfold fileFailure at h
  split at h <;> cases h
  rfl

/-- An absolute path does not depend on the current directory. -/
theorem absolute_text (l : Location) : s.absolute l.text = l.text := by
  unfold absolute
  split
  · next h => rw [h]
  · rw [Path.join, if_pos (Location.isAbsolute_text l)]

/-- A file that is read exists, and what is read is its content. -/
theorem read_eq_ok {t : Tree} {content : ByteArray} (h : t.read path = .ok content) :
    ∃ l, t.existing path = .ok l ∧ t.get? l = some (.file content) := by
  obtain ⟨l, hl, h⟩ := bind_eq_ok.mp h
  refine ⟨l, hl, ?_⟩
  split at h <;> cases h
  assumption

/-- A text that is read is what the bytes of some file spell. -/
theorem readText_eq_ok (h : s.readText path = .ok text) :
    ∃ content, s.tree.read (s.absolute path) = .ok content ∧
      Text.Utf8.decode content = .ok text := by
  obtain ⟨path', hwhole, h⟩ := bind_eq_ok.mp h
  obtain ⟨content, hread, h⟩ := bind_eq_ok.mp h
  have hpath : path' = path := by
    unfold whole at hwhole
    split at hwhole <;> cases hwhole
    rfl
  refine ⟨content, hpath ▸ fileFailure_eq_ok hread, ?_⟩
  split at h
  · next hd =>
    cases h
    exact hd
  · cases h

/-- A source that compiles is that of a script below the root of the script jail. -/
theorem loadScript_eq_ok {source : Source} {code : Proto}
    (hload : s.loadScript (some path) = .ok source)
    (hcode : compileText ("@" ++ source.name).toUTF8 source.text = .ok code) :
    ∃ c : CodeFile s path, c.code = code := by
  obtain ⟨p, hp, h⟩ := bind_eq_ok.mp hload
  obtain ⟨text, htext, h⟩ := bind_eq_ok.mp h
  obtain ⟨content, hread, hdecode⟩ := readText_eq_ok htext
  rw [absolute_text] at hread
  obtain ⟨l, hopen, hfile⟩ := read_eq_ok hread
  cases h
  exact ⟨⟨p, l, content, text, code, refusal_eq_ok hp, hopen, hfile, hdecode, hcode⟩, rfl⟩

end OscHost.Host

namespace OscHost.Script

open Files Library

/-! ## Loading a script -/

section Loading

variable {site : Site} {h : Heap} {s : Host} {path : String} {environment : Option Value}
  {k : Except HostError Value → Heap → Action}

/-- Loading asks the host for the source and compiles what it is given. -/
theorem loadScript_ask {path : Option String} :
    Base.loadScript path environment site k h =
      .ask (.loadScript path) h fun r h =>
        match r with
        | .error e => k (.error e) h
        | .ok source =>
          match compileText ("@" ++ source.name).toUTF8 source.text with
          | .error message =>
            k (.error (.script ("syntax error: " ++ Text.Utf8.lossy message))) h
          | .ok p =>
            k (.ok (h.newChunk p (environment.getD h.globalsValue)).1)
              (h.newChunk p (environment.getD h.globalsValue)).2 := by
  refine congrArg (Action.ask (.loadScript path) h) ?_
  funext r h
  rcases r with e | source
  · rfl
  · dsimp only
    generalize compileText ("@" ++ source.name).toUTF8 source.text = compiled
    cases compiled <;> cases environment <;> rfl

/-- Loading either yields a function with the code of a script, which is the only change to the
    heap, or an error, and then the heap is as it was. -/
theorem loadScript_cases :
    (∃ e, (Base.loadScript (some path) environment site k h).answered s =
      (k (.error e) h).answered s) ∨
    ∃ c : CodeFile s path,
      (Base.loadScript (some path) environment site k h).answered s =
        (k (.ok (h.newChunk c.code (environment.getD h.globalsValue)).1)
          (h.newChunk c.code (environment.getD h.globalsValue)).2).answered s := by
  have hperform : s.perform (.loadScript (some path)) = (s.loadScript (some path), s) := rfl
  rw [loadScript_ask, Action.answered_ask, hperform]
  rcases hload : s.loadScript (some path) with e | source
  · exact .inl ⟨e, rfl⟩
  · dsimp only
    rcases hcode : compileText ("@" ++ source.name).toUTF8 source.text with message | code
    · exact .inl ⟨_, rfl⟩
    · obtain ⟨c, rfl⟩ := Host.loadScript_eq_ok hload hcode
      refine .inr ⟨c, ?_⟩
      cases environment <;> rfl

end Loading

/-! ## Texts as arguments -/

/-- The bytes of a text spell that text. -/
theorem decode_toUTF8 (text : String) : Text.Utf8.decode text.toUTF8 = .ok text := by
  have h : String.fromUTF8? text.toUTF8 = some text := dif_pos text.isValidUTF8
  rw [Text.Utf8.decode, h]

/-- A file that holds the bytes of a text is read as that text. -/
theorem readText_of_read {s : Host} {l : Location} {text : String} (hname : '\x00' ∉ l.text.toList)
    (hread : s.tree.read l.text = .ok text.toUTF8) : s.readText l.text = .ok text := by
  rw [Host.readText, Host.whole, String.contains_char_eq, if_neg (by simpa using hname)]
  show (Host.fileFailure (s.tree.read (s.absolute l.text)) >>= _) = _
  rw [Host.absolute_text, hread]
  simp only [Host.fileFailure, bind, Except.bind, decode_toUTF8]
  rfl

/-- A script that is real is loaded from the place that its path spells out. -/
theorem loadScript_of_real {s : Host} {path text : String} {l : Location} (hreal : s.tree.Real l)
    (hheld : s.tree.get? l = some (.file text.toUTF8)) (hl : l ≠ []) (hne : path ≠ "")
    (hanchor : anchorAt s.around s.scriptJail.root.text path =
      .ok (Path.join s.scriptJail.root.text path))
    (hplace : Path.normalize (Path.join s.scriptJail.root.text path) = l)
    (hinside : s.scriptJail.root.isPrefixOf l) (hlong : l.text.utf8ByteSize ≤ Tree.maxPath)
    (hname : '\x00' ∉ l.text.toList) : s.loadScript (some path) =
      .ok ⟨"/".intercalate (l.drop s.scriptJail.root.length), Host.withoutHashLine text⟩ := by
  have hresolve : s.scriptJail.resolve s.tree s.around path = .ok l := by
    rw [Jail.resolve_of_anchored hne hanchor, hplace, harden_of_ok hreal.canonicalize, if_pos hinside]
  have hread : s.tree.read l.text = .ok text.toUTF8 := by
    rw [Tree.read, hreal.existing hl hlong]
    dsimp only [bind, Except.bind]
    rw [hheld]
    rfl
  show (Host.refusal (s.scriptJail.resolve s.tree s.around path) >>= _) = _
  rw [hresolve]
  show (s.readText l.text >>= _) = _
  rw [readText_of_read hname hread]
  rfl

section Arguments

variable {args : Args} {n : Nat} {text : String}

theorem hostText_of_text (h : args.get n = .string text.toUTF8) :
    Lib.hostText args n = pure text := by
  unfold Lib.hostText
  rw [h]
  unfold Value.asText?
  dsimp only
  rw [decode_toUTF8]

theorem hostText?_of_text (h : args.get n = .string text.toUTF8) :
    Lib.hostText? args n = pure (some text) := by
  unfold Lib.hostText?
  rw [hostText_of_text h, h]
  rfl

theorem hostText?_of_nil (h : args.get n = .nil) : Lib.hostText? args n = pure none := by
  unfold Lib.hostText?
  rw [h]

theorem hostTable?_of_table {id : Nat} (h : args.get n = .table id) :
    Lib.hostTable? args n = pure (some id) := by
  unfold Lib.hostTable?
  rw [h]

theorem hostTable?_of_nil (h : args.get n = .nil) : Lib.hostTable? args n = pure none := by
  unfold Lib.hostTable?
  rw [h]

end Arguments

/-! ## The three entrances -/

/-- The ways in which a script gets code from a file. -/
inductive Entrance
  /-- With a mode, which is ignored, and an environment for the code. -/
  | loadfile (mode : Option String) (environment : Option Nat)
  | dofile
  | searcher

namespace Entrance

/-- The function a script calls. -/
def call : Entrance → Args → Lib (List Value)
  | .loadfile .. => Base.loadfile
  | .dofile => Base.dofile
  | .searcher => Modules.searchScript

/-- A path or the name of a module as arguments of the call; more are given no heed. -/
def args : Entrance → String → Args → Args
  | .loadfile mode environment, path, more =>
    .string path.toUTF8 :: (mode.map fun m => .string m.toUTF8).getD .nil ::
      (environment.map .table).getD .nil :: more
  | .dofile, path, more => .string path.toUTF8 :: more
  | .searcher, name, more => .string name.toUTF8 :: more

/-- The paths that are requested of the script jail, one after the other. -/
def requests : Entrance → String → List String
  | .searcher, name => Modules.templates.map (·.replace "?" (name.replace "." "/"))
  | _, path => [path]

/-- The environment of the code. -/
def environment : Entrance → Heap → Value
  | .loadfile _ (some id), _ => .table id
  | _, h => h.globalsValue

/-- What becomes of a call that got a function out of a file: it is handed over, or run. -/
def success : Entrance → (request : String) → Value → Heap → Action
  | .loadfile .., _, f, h => .done [f, .nil] h
  | .dofile, _, f, h => .become f [] h
  | .searcher, request, f, h => .done [f, .text request] h

/-- What becomes of a call that got none: nil and a message, or the text of the failed search. -/
def failure : Entrance → (message : String) → Heap → Action
  | .searcher, message, h => .done [.text message, .nil] h
  | _, message, h => .done [.nil, .text message] h

/-- What a call leads to: a failure that changes nothing but the log, or a success with the code
    of a script. -/
def Outcome (e : Entrance) (path : String) (h : Heap) (s : Host) (r : Action × Host) : Prop :=
  ∃ records : List LogRecord,
    (∃ message, r = (e.failure message h, s.records records)) ∨
    ∃ request ∈ e.requests path, ∃ c : CodeFile s request,
      r = (e.success request (h.newChunk c.code (e.environment h)).1
        (h.newChunk c.code (e.environment h)).2, s.records records)

end Entrance

section Outcomes

variable {site : Site} {h : Heap} {s : Host} {path : String} {more : Args}

/-- What `loadfile` does with the answer. -/
def afterLoadfile (k : List Value → Heap → Action) : Except HostError Value → Heap → Action
  | .ok f, h => k [f, .nil] h
  | .error e, h =>
    .ask (.log (.warn ("loadfile refused: " ++ e.message))) h fun _ h =>
      k [.nil, .text e.message] h

/-- With a path that is text, `loadfile` loads the script. -/
theorem loadfile_eq {args : Args} {environment : Option Nat} {m : Option String}
    {k : List Value → Heap → Action} (hpath : args.get 1 = .string path.toUTF8)
    (hmode : Lib.hostText? args 2 = pure m) (htable : Lib.hostTable? args 3 = pure environment) :
    Base.loadfile args site k h =
      Base.loadScript (some path) (environment.map .table) site (afterLoadfile k) h := by
  unfold Base.loadfile
  rw [hostText?_of_text hpath, hmode, htable]
  refine congrArg (fun k => Base.loadScript (some path) (environment.map .table) site k h) ?_
  funext r h
  cases r <;> rfl

theorem loadfile_outcome (mode : Option String) (environment : Option Nat) :
    (Entrance.loadfile mode environment).Outcome path h s
      (((Base.loadfile ((Entrance.loadfile mode environment).args path more)).action
        site h).answered s) := by
  have hmode : ∃ m, Lib.hostText? ((Entrance.loadfile mode environment).args path more) 2 =
      pure m := by
    cases mode with
    | none => exact ⟨none, hostText?_of_nil rfl⟩
    | some m => exact ⟨some m, hostText?_of_text rfl⟩
  have htable : Lib.hostTable? ((Entrance.loadfile mode environment).args path more) 3 =
      pure environment := by
    cases environment with
    | none => exact hostTable?_of_nil rfl
    | some id => exact hostTable?_of_table rfl
  obtain ⟨m, hmode⟩ := hmode
  have hpath : ((Entrance.loadfile mode environment).args path more).get 1 =
      .string path.toUTF8 := rfl
  rw [Lib.action, loadfile_eq hpath hmode htable]
  -- the mode and the table are read before the path is looked at, whatever they are
  rcases loadScript_cases with ⟨e, he⟩ | ⟨c, hc⟩
  · rw [he]
    exact ⟨[_], .inl ⟨e.message, rfl⟩⟩
  · rw [hc]
    refine ⟨[], .inr ⟨path, List.mem_singleton_self path, c, ?_⟩⟩
    cases environment <;> rfl

/-- What `dofile` does with the answer: it runs the function, or hands over the message. -/
def afterDofile : Except HostError Value → Heap → Action :=
  afterLoadfile fun values h =>
    match values with
    | [.nil, message] => .done [.nil, message] h
    | values => .become (firstOf values) [] h

/-- `dofile` is `loadfile` on its first argument. -/
theorem dofile_eq :
    (Base.dofile (Entrance.dofile.args path more)).action site h =
      Base.loadScript (some path) none site afterDofile h := by
  have hpath : Args.get [.string path.toUTF8] 1 = .string path.toUTF8 := rfl
  refine Eq.trans ?_ (loadfile_eq hpath (hostText?_of_nil rfl) (hostTable?_of_nil rfl))
  refine congrArg (fun k => Base.loadfile [.string path.toUTF8] site k h) ?_
  funext values h
  -- nil with a message is handed over, and nothing else is
  rcases values with _ | ⟨v, _ | ⟨message, _ | ⟨third, rest⟩⟩⟩
  · rfl
  all_goals cases v <;> rfl

theorem dofile_outcome :
    Entrance.dofile.Outcome path h s
      (((Base.dofile (Entrance.dofile.args path more)).action site h).answered s) := by
  rw [dofile_eq]
  rcases loadScript_cases with ⟨e, he⟩ | ⟨c, hc⟩
  · rw [he]
    exact ⟨[_], .inl ⟨e.message, rfl⟩⟩
  · rw [hc]
    exact ⟨[], .inr ⟨path, List.mem_singleton_self path, c, rfl⟩⟩

/-- What the searcher does with the answer for one candidate. -/
def afterCandidate (name candidate : String) : Except HostError Value → Heap → Action
  | .ok f, h => .done [f, .text candidate] h
  | .error e, h =>
    .ask (.log (.warn ("require('" ++ name ++ "') refused: " ++ e.message))) h fun _ h =>
      .done [.text ("\n\tcannot load '" ++ candidate ++ "': " ++ e.message), .nil] h

/-- A candidate that is a file is loaded; the next one is tried otherwise. -/
theorem searchIn_cons {name stem tried template : String} {rest : List String} :
    Modules.searchIn name stem tried (template :: rest) site .done h =
      .ask (.isModule (template.replace "?" stem)) h fun found h =>
        match found with
        | true =>
          Base.loadScript (some (template.replace "?" stem)) none site
            (afterCandidate name (template.replace "?" stem)) h
        | false =>
          Modules.searchIn name stem
            (tried ++ "\n\tno file '" ++ template.replace "?" stem ++ "'") rest site .done h := by
  refine congrArg (Action.ask (.isModule (template.replace "?" stem)) h) ?_
  funext found h
  cases found with
  | false => rfl
  | true =>
    refine congrArg (fun k =>
      Base.loadScript (some (template.replace "?" stem)) none site k h) ?_
    funext r h
    cases r <;> rfl

/-- The searcher goes through its templates and stops at the first file. -/
theorem searchIn_outcome (name stem : String) (templates : List String) (tried : String) :
    ∃ records : List LogRecord,
      (∃ message, (Modules.searchIn name stem tried templates site .done h).answered s =
        (Entrance.searcher.failure message h, s.records records)) ∨
      ∃ request ∈ templates.map (·.replace "?" stem), ∃ c : CodeFile s request,
        (Modules.searchIn name stem tried templates site .done h).answered s =
          (Entrance.searcher.success request (h.newChunk c.code h.globalsValue).1
            (h.newChunk c.code h.globalsValue).2, s.records records) := by
  induction templates generalizing tried with
  | nil => exact ⟨[], .inl ⟨tried, rfl⟩⟩
  | cons template rest ih =>
    have hask : s.perform (.isModule (template.replace "?" stem)) =
        (s.isModule (template.replace "?" stem), s) := rfl
    rw [searchIn_cons, Action.answered_ask, hask]
    cases s.isModule (template.replace "?" stem) with
    -- a template that names a file settles it, even if loading fails
    | true =>
      dsimp only
      rcases loadScript_cases with ⟨e, he⟩ | ⟨c, hc⟩
      · rw [he]
        exact ⟨[_], .inl ⟨_, rfl⟩⟩
      · rw [hc]
        exact ⟨[], .inr ⟨_, List.mem_cons_self, c, rfl⟩⟩
    | false =>
      obtain ⟨records, ih⟩ := ih (tried ++ "\n\tno file '" ++ template.replace "?" stem ++ "'")
      refine ⟨records, ih.imp_right ?_⟩
      rintro ⟨request, hrequest, c, hc⟩
      exact ⟨request, List.mem_cons_of_mem _ hrequest, c, hc⟩

theorem searchScript_outcome :
    Entrance.searcher.Outcome path h s
      (((Modules.searchScript (Entrance.searcher.args path more)).action site h).answered s) := by
  have hsearch : (Modules.searchScript (Entrance.searcher.args path more)).action site h =
      Modules.searchIn path (path.replace "." "/") "" Modules.templates site .done h := by
    have hname : (Entrance.searcher.args path more).get 1 = .string path.toUTF8 := rfl
    unfold Modules.searchScript
    rw [hostText_of_text hname]
    rfl
  rw [hsearch]
  exact searchIn_outcome path (path.replace "." "/") Modules.templates ""

end Outcomes

namespace Entrance

/-- Every entrance hands over or runs the code of a script, or fails and changes nothing. -/
theorem outcome (e : Entrance) (site : Site) (h : Heap) (s : Host) (path : String)
    (more : Args) :
    e.Outcome path h s (((e.call (e.args path more)).action site h).answered s) := by
  cases e with
  | loadfile mode environment => exact loadfile_outcome mode environment
  | dofile => exact dofile_outcome
  | searcher => exact searchScript_outcome

/-- Code comes from a text file at a real location, or the call fails and nothing is compiled.

    The script root exists when its jail is made; the files may have changed since.  The file
    that the code of a successful call comes from lies below that root if and only if every link
    at which resolving the request stopped leads below it. -/
theorem code_below_root_iff {t : Tree} {around : Surroundings} {root : String} {real : Location}
    (hroot : t.canonicalizeText (Path.join around.current root) = .ok real) {s : Host}
    (hjail : s.scriptJail = Jail.make t around root) (e : Entrance) (site : Site) (h : Heap)
    (path : String) (more : Args) :
    ∃ records : List LogRecord,
      (∃ message, ((e.call (e.args path more)).action site h).answered s =
        (e.failure message h, s.records records)) ∨
      ∃ request ∈ e.requests path, ∃ c : CodeFile s request,
        ((e.call (e.args path more)).action site h).answered s =
          (e.success request (h.newChunk c.code (e.environment h)).1
            (h.newChunk c.code (e.environment h)).2, s.records records) ∧
        s.tree.Real c.place ∧
        (Host.withoutHashLine c.text).toUTF8[0]? ≠ some compiledMark ∧
        (real <+: c.place ↔
          ∀ b : Tree.BrokenLink s.tree (s.scriptJail.wanted s.around request),
            ∀ q, b.leadsTo = .ok q → real <+: q.location) := by
  have hreal : s.scriptJail.root = real := by rw [hjail, Jail.make_root hroot]
  obtain ⟨records, hfail | ⟨request, hrequest, c, hc⟩⟩ := e.outcome site h s path more
  · exact ⟨records, .inl hfail⟩
  · exact ⟨records, .inr ⟨request, hrequest, c, hc, c.real, c.isText, hreal ▸ c.below_root_iff⟩⟩

end Entrance

/-! ## A maze of links -/

/-- A script root with a link to itself, and a link out of it. -/
def maze : Tree :=
  ⟨[(["lua"], .directory), (["lua", "d"], .link "."), (["lua", "out.lua"], .link "../beyond.lua"),
    (["beyond.lua"], .file "return 'escaped'".toUTF8)]⟩

/-- A host whose scripts are in the maze. -/
def mazeHost : Host :=
  { tree := maze, around := ⟨"/", none⟩, policy := {}, scriptJail := Jail.make maze ⟨"/", none⟩ "lua",
    ioJail := ⟨["lua"]⟩, jsonRoots := {} }

/-- The way around forty times, and out. -/
def detour : String := String.join (List.replicate 40 "d/") ++ "out.lua"

theorem maze_turn : maze.get? (["lua"] ++ ["d"]) = some (.link ".") := rfl

theorem maze_out : maze.get? (["lua"] ++ ["out.lua"]) = some (.link "../beyond.lua") := rfl

/-- Each turn takes one link and leads back. -/
theorem maze_turns (n k : Nat) (ys : List Component) :
    maze.walk (n + k) ["lua"] (List.replicate k (.name "d") ++ ys) = maze.walk n ["lua"] ys := by
  have htarget : Tree.steps "." = [.current] := by decide
  induction k with
  | zero => rfl
  | succ k ih =>
    rw [List.replicate_succ, List.cons_append, ← Nat.add_assoc,
      Tree.walk_link rfl (by decide) maze_turn (by decide),
      if_neg (by decide), htarget, List.singleton_append, Tree.walk_current rfl]
    exact ih

theorem maze_enter (n : Nat) (ys : List Component) :
    maze.walk n [] (.name "lua" :: ys) = maze.walk n ["lua"] ys :=
  Tree.walk_other (e := .directory) rfl (by decide) rfl (fun _ => nofun)

/-- The link out is followed by whoever has a link left. -/
theorem maze_leave (n : Nat) :
    maze.walk (n + 1) ["lua"] [.name "out.lua"] = .ok (.entry ["beyond.lua"]) := by
  have htarget : Tree.steps "../beyond.lua" = [.parent, .name "beyond.lua"] := by decide
  calc maze.walk (n + 1) ["lua"] [.name "out.lua"]
    _ = maze.walk n ["lua"] [.parent, .name "beyond.lua"] := by
        rw [Tree.walk_link rfl (by decide) maze_out (by decide),
          if_neg (by decide), htarget, List.append_nil]
    _ = maze.walk n [] [.name "beyond.lua"] := Tree.walk_parent rfl
    _ = maze.walk n ["beyond.lua"] [] :=
        Tree.walk_other (e := .file _) rfl (by decide) rfl (fun _ => nofun)
    _ = .ok (.entry ["beyond.lua"]) := Tree.walk_nil

theorem maze_canonicalizeText :
    maze.canonicalizeText (Path.join "/" "lua") = .ok ["lua"] := by
  have hsteps : Tree.steps (Path.join "/" "lua") = [.name "lua"] := by decide +kernel
  rw [Tree.canonicalizeText, if_neg (by decide +kernel), hsteps, maze_enter, Tree.walk_nil]
  rfl

/-- A turn is a piece of its own. -/
theorem detour_succ (k : Nat) (rest : String) :
    String.join (List.replicate (k + 1) "d/") ++ rest =
      "d" ++ "/" ++ (String.join (List.replicate k "d/") ++ rest) := by
  rw [List.replicate_succ, String.join_cons, String.append_assoc]
  rfl

theorem detour_head : (Path.pieces detour).head? = some "d" := by
  have hturn : Path.pieces "d" = ["d"] := by decide
  rw [detour, detour_succ, Path.pieces_separated, hturn]
  rfl

theorem detour_body : Path.body detour = (List.replicate 40 "d" ++ ["out.lua"]).map .name := by
  have hturn : Path.body "d" = [.name "d"] := by decide
  have hout : Path.body "out.lua" = [.name "out.lua"] := by decide
  have hturns (k : Nat) : Path.body (String.join (List.replicate k "d/") ++ "out.lua") =
      List.replicate k (.name "d") ++ [.name "out.lua"] := by
    induction k with
    | zero => exact hout
    | succ k ih => rw [detour_succ, Path.body_separated, hturn, ih]; rfl
  rw [detour, hturns, List.map_append, List.map_replicate]
  rfl

/-- The detour is below the script root as it is written. -/
theorem detour_normal :
    Path.normalize (Path.join "/lua" detour) = ("lua" :: List.replicate 40 "d") ++ ["out.lua"] := by
  have hbase : Path.normalize "/lua" = ["lua"] := by decide
  have hrelative : ¬Path.isAbsolute detour = true := fun habs =>
    absurd (detour_head.symm.trans (Path.head_pieces_of_isAbsolute habs)) (by decide)
  rw [Path.normalize_join, Path.foldl_components, if_neg hrelative, detour_body,
    Path.foldl_fold_names, hbase]
  rfl

/-- Resolving spends its links on the turns and keeps the name of the link out. -/
theorem maze_resolve :
    mazeHost.scriptJail.resolve maze mazeHost.around detour = .ok ["lua", "out.lua"] := by
  have hroot : mazeHost.scriptJail.root = ["lua"] := Jail.make_root maze_canonicalizeText
  have hanchor : anchorAt mazeHost.around mazeHost.scriptJail.root.text detour =
      .ok (Path.join "/lua" detour) := by
    have hname :=
      Path.head_components_of_pieces ⟨by decide, by decide, by decide, by decide⟩ detour_head
    rw [anchorAt, hname, if_neg (by decide), hroot]
    rfl
  have hnonempty : detour ≠ "" := fun h =>
    absurd (String.append_eq_empty_iff.mp h).2 (by decide)
  -- forty turns use up the links: the directory is still reached, the link in it is not followed
  have hturns : maze.canonicalize ("lua" :: List.replicate 40 "d") = .ok ["lua"] := by
    refine Tree.canonicalize_eq_ok.mpr ?_
    rw [Tree.follow, List.map_cons, List.map_replicate, maze_enter,
      ← List.append_nil (List.replicate 40 (Component.name "d"))]
    exact (maze_turns 0 40 []).trans Tree.walk_nil
  have hout : maze.canonicalize (("lua" :: List.replicate 40 "d") ++ ["out.lua"]) =
      .error .tooManyLinks := by
    have hwalk : maze.walk Tree.maxLinks ["lua"] (List.replicate 40 (.name "d") ++
        [.name "out.lua"]) = .error .tooManyLinks :=
      (maze_turns 0 40 _).trans
        (Tree.walk_exhausted rfl (by decide) maze_out)
    rw [Tree.canonicalize, Tree.follow, List.map_append, List.map_cons, List.map_replicate,
      List.cons_append, maze_enter, List.map_singleton, hwalk]
    rfl
  have hharden : harden maze (("lua" :: List.replicate 40 "d") ++ ["out.lua"]) =
      ["lua", "out.lua"] := by
    rw [harden, hardenFrom, hout]
    dsimp only
    rw [dif_neg (by simp), List.dropLast_concat, hardenFrom, hturns]
    rfl
  rw [Jail.resolve_of_anchored hnonempty hanchor, detour_normal, hharden, hroot]
  rfl

/-- Reading starts with all its links and gets out. -/
theorem maze_existing : maze.existing (Location.text ["lua", "out.lua"]) = .ok ["beyond.lua"] := by
  have hsteps : Tree.steps (Location.text ["lua", "out.lua"]) =
      [.name "lua", .name "out.lua"] := by decide
  refine Tree.existing_eq_ok.mpr ?_
  rw [Tree.followText, if_neg (by decide), if_neg (by decide), hsteps, maze_enter]
  exact maze_leave 39

theorem maze_loadScript :
    mazeHost.loadScript (some detour) = .ok ⟨"out.lua", "return 'escaped'"⟩ := by
  have hroot : mazeHost.scriptJail.root = ["lua"] := Jail.make_root maze_canonicalizeText
  have hread : maze.read (Location.text ["lua", "out.lua"]) =
      .ok "return 'escaped'".toUTF8 := by
    rw [Tree.read, maze_existing]
    rfl
  have htext : mazeHost.readText (Location.text ["lua", "out.lua"]) =
      .ok "return 'escaped'" := readText_of_read (by decide) hread
  have hhash : Host.withoutHashLine "return 'escaped'" = "return 'escaped'" := by
    decide +kernel
  show (Host.refusal (mazeHost.scriptJail.resolve maze mazeHost.around detour) >>= _) = _
  rw [maze_resolve]
  show (mazeHost.readText (Location.text ["lua", "out.lua"]) >>= _) = _
  rw [htext]
  show Except.ok (Source.mk ("/".intercalate (["lua", "out.lua"].drop _)) _) = _
  rw [hroot, hhash]
  rfl

/-- The script at the end of the detour is outside the script root. -/
theorem maze_place (c : CodeFile mazeHost detour) : c.place = ["beyond.lua"] := by
  have hopened := c.opened
  rw [Except.ok.inj (c.resolved.symm.trans maze_resolve)] at hopened
  exact Except.ok.inj (hopened.symm.trans maze_existing)

/-- Its code is run. -/
theorem maze_dofile (site : Site) (h : Heap) :
    ∃ c : CodeFile mazeHost detour,
      ((Entrance.dofile.call (Entrance.dofile.args detour [])).action site h).answered mazeHost =
        (Entrance.dofile.success detour (h.newChunk c.code h.globalsValue).1
          (h.newChunk c.code h.globalsValue).2, mazeHost) := by
  have hcompiles : (compileText ("@" ++ "out.lua").toUTF8 "return 'escaped'").toBool = true := by
    decide +kernel
  rcases hcode : compileText ("@" ++ "out.lua").toUTF8 "return 'escaped'" with e | code
  · rw [hcode] at hcompiles
    cases hcompiles
  · obtain ⟨c, hc⟩ := Host.loadScript_eq_ok maze_loadScript hcode
    have hperform : mazeHost.perform (.loadScript (some detour)) =
        (mazeHost.loadScript (some detour), mazeHost) := rfl
    refine ⟨c, ?_⟩
    rw [Entrance.call, dofile_eq, loadScript_ask, Action.answered_ask, hperform, maze_loadScript]
    dsimp only
    rw [hcode, hc]
    rfl

/-- A place where nothing runs. -/
def emptySite : Site := ⟨fun _ => none, false, none, false⟩

namespace Entrance

/-- The maze meets the hypotheses of `code_below_root_iff`, and the call succeeds. -/
theorem maze_code_below_root_iff :
    maze.canonicalizeText (Path.join "/" "lua") = .ok ["lua"] ∧
    mazeHost.scriptJail = Jail.make maze ⟨"/", none⟩ "lua" ∧
    ∃ c : CodeFile mazeHost detour,
      (["lua"] <+: c.place ↔
        ∀ b : Tree.BrokenLink maze (mazeHost.scriptJail.wanted mazeHost.around detour),
          ∀ q, b.leadsTo = .ok q → ["lua"] <+: q.location) := by
  refine ⟨maze_canonicalizeText, rfl, ?_⟩
  obtain ⟨records, ⟨message, hfail⟩ | ⟨request, hrequest, c, -, -, -, hiff⟩⟩ :=
    code_below_root_iff maze_canonicalizeText (s := mazeHost) rfl .dofile emptySite {} detour []
  · obtain ⟨c, hrun⟩ := maze_dofile emptySite {}
    cases congrArg Prod.fst (hrun.symm.trans hfail)
  · cases List.mem_singleton.mp hrequest
    exact ⟨c, hiff⟩

/-- So code from outside the script root can be run. -/
theorem not_forall_code_below_root :
    ¬ ∀ (t : Tree) (around : Surroundings) (root : String) (real : Location) (s : Host),
      t.canonicalizeText (Path.join around.current root) = .ok real →
      s.scriptJail = Jail.make t around root →
      ∀ (e : Entrance) (site : Site) (h : Heap) (path : String) (more : Args),
        ∃ records : List LogRecord,
          (∃ message, ((e.call (e.args path more)).action site h).answered s =
            (e.failure message h, s.records records)) ∨
          ∃ request ∈ e.requests path, ∃ c : CodeFile s request,
            ((e.call (e.args path more)).action site h).answered s =
              (e.success request (h.newChunk c.code (e.environment h)).1
                (h.newChunk c.code (e.environment h)).2, s.records records) ∧
            real <+: c.place := by
  intro h
  obtain ⟨records, ⟨message, hfail⟩ | ⟨request, hrequest, c, hc, hbelow⟩⟩ :=
    h maze ⟨"/", none⟩ "lua" ["lua"] mazeHost maze_canonicalizeText rfl .dofile emptySite {}
      detour []
  · obtain ⟨c, hrun⟩ := maze_dofile emptySite {}
    cases congrArg Prod.fst (hrun.symm.trans hfail)
  · -- the script that runs lies beside the root
    cases List.mem_singleton.mp hrequest
    rw [maze_place c] at hbelow
    exact absurd (List.isPrefixOf_iff_prefix.mpr hbelow) (by decide)

end Entrance

end OscHost.Script
