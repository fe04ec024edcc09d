import Boutique.Cli.Clients
import Boutique.Cli.Echo

namespace Boutique.Cli

open Boutique.Core Boutique.Data Boutique.Db Boutique.Protocol Boutique.Server

/-! # Runs of clients and a server -/

variable {floats : FloatText} {said : List Bytes → Prop} {remains : Bytes → Bytes} {rounds : Nat}
  {cat : Catalogue} {cmd : Command} {res : Response} {responses : List Response} {client : Client}
  {session : Session} {console : Console} {name key doc : Bytes} {schema : Schema}

/-! ## A client -/

/-- A document that has been typed for the collection is shown with its values. -/
theorem Informed.shows (informed : Informed cat session) (sound : Sound floats said cat)
    (cached : session.colschemas name = some schema)
    (showable : Showable floats said cat (.get name key) (.found doc)) :
    ∃ values lines rest, said lines ∧ enterAll floats schema.fields lines = .ok (values, rest) ∧
      (∃ value, values[schema.keyFieldIndex]? = some value ∧ value.key = key) ∧
      printAggregate floats doc schema.fields 0 =
        .ok (renderAll floats schema.fields values 0) := by
  obtain ⟨shelf, present, here, values, lines, rest, typed, entered, records⟩ := showable
  obtain ⟨other, found, rfl⟩ := informed.told cached
  cases present.symm.trans found
  obtain ⟨coll, made, access, _⟩ := (sound.shelves found).made
  obtain ⟨value, selected, keyOf, _⟩ := records.keyOf made
  rw [access, keyOf] at here
  exact ⟨values, lines, rest, typed, entered, ⟨value, selected, here⟩,
    records.stored.printAggregate (sound.shelves found).usable.solid⟩

theorem Informed.setSchemas (informed : Informed cat session) (usable : Usable schema) :
    Informed cat { session with
      schemas := Function.update session.schemas name (some schema) } where
  schemas := by
    intro other schema' found
    replace found : Function.update session.schemas name (some schema) other = some schema' := found
    by_cases same : other = name
    · rw [same, Function.update_self] at found
      cases found
      exact usable
    · rw [Function.update_of_ne same] at found
      exact informed.schemas found
  colschemas := informed.colschemas
  told := informed.told

theorem Informed.setColschemas (informed : Informed cat session) (usable : Usable schema)
    (current : ∃ shelf, cat.shelves name = some shelf ∧ shelf.schema = schema) :
    Informed cat { session with
      colschemas := Function.update session.colschemas name (some schema) } := by
  have updated : ∀ {other schema'},
      Function.update session.colschemas name (some schema) other = some schema' →
        Usable schema' ∧ ∃ shelf, cat.shelves other = some shelf ∧ shelf.schema = schema' := by
    intro other schema' found
    by_cases same : other = name
    · rw [same, Function.update_self] at found
      cases found
      exact ⟨usable, same ▸ current⟩
    · rw [Function.update_of_ne same] at found
      exact ⟨informed.colschemas found, informed.told found⟩
  exact ⟨⟨informed.schemas, fun found => (updated found).1⟩, fun found => (updated found).2⟩

/-- A client shows what it is given and learns what it is told. -/
theorem Informed.handle (informed : Informed cat session) (sound : Sound floats said cat)
    (showable : Showable floats said cat cmd res) (console : Console) :
    ∃ session' console', handle floats session cmd res console = .ok (session', console') ∧
      console'.input = console.input ∧ Informed cat session' := by
  cases res with
  | monostate | success | failed | invalidCommand | notFound | string =>
      exact ⟨session, _, rfl, rfl, informed⟩
  | found doc =>
      cases cmd with
      | get name key =>
          rw [Cli.handle]
          cases cached : session.colschemas name with
          | none => exact ⟨session, _, rfl, rfl, informed⟩
          | some schema =>
              obtain ⟨_, _, _, _, _, _, shown⟩ := informed.shows sound cached showable
              dsimp only
              rw [shown]
              exact ⟨session, _, rfl, rfl, informed⟩
      | monostate | registerSchema | createCollection | getSchema | getCollectionSchema | put
      | delete => exact ⟨session, _, rfl, rfl, informed⟩
  | schema schema =>
      obtain ⟨usable, current⟩ := showable
      cases cmd with
      | getSchema name => exact ⟨_, _, rfl, rfl, informed.setSchemas usable⟩
      | getCollectionSchema name => exact ⟨_, _, rfl, rfl, informed.setColschemas usable current⟩
      | monostate | registerSchema | createCollection | get | put | delete =>
          exact ⟨session, _, rfl, rfl, informed⟩

theorem Informed.handleAll (informed : Informed cat session) (sound : Sound floats said cat)
    (showable : ∀ res ∈ responses, Showable floats said cat cmd res) (console : Console) :
    ∃ session' console', handleAll floats cmd responses session console = .ok (session', console') ∧
      console'.input = console.input ∧ Informed cat session' := by
  induction responses generalizing session console with
  | nil => exact ⟨session, console, rfl, rfl, informed⟩
  | cons res responses ih =>
      obtain ⟨first, later⟩ := List.forall_mem_cons.mp showable
      obtain ⟨session', console', handled, input, informed'⟩ := informed.handle sound first console
      rw [Cli.handleAll, handled, ← input]
      exact ih informed' later console'

theorem Client.Sound.receive (kept : client.Sound floats said cat)
    (sound : Cli.Sound floats said cat)
    (showable : ∀ res ∈ responses, Showable floats said cat cmd res) :
    (client.receive floats cmd responses).Sound floats said cat := by
  obtain ⟨session', console', handled, input, informed⟩ :=
    kept.informed.handleAll sound showable client.console
  rw [Client.receive, handled]
  refine ⟨informed, ?_, trivial, nofun⟩
  rw [input]
  exact kept.input

/-- What has been said goes on with all that is left of it. -/
def Closed (said : List Bytes → Prop) : Prop :=
  ∀ lines rest, said lines → rest <:+ lines → said rest

theorem Issued.ready {input : List Bytes} (issued : Issued floats remains session input cmd)
    (informed : Informed cat session) (sound : Sound floats said cat) (closed : Closed said)
    (start : said input) (intact : ∀ name, remains name = name) : Ready floats said cat cmd := by
  cases issued with
  | registerSchema name inRange layable => exact ⟨inRange, layable⟩
  | createCollection | getSchema | getCollectionSchema => trivial
  | get cached made isKey | delete cached made isKey =>
      obtain ⟨shelf, found, rfl⟩ := informed.told cached
      obtain ⟨coll, made', access, _⟩ := (sound.shelves found).made
      cases made.symm.trans made'
      exact ⟨shelf, found, access ▸ isKey⟩
  | @put name doc schema values lines rest cached typed entered records =>
      obtain ⟨shelf, found, rfl⟩ := informed.told cached
      rw [intact]
      exact ⟨shelf, found, values, lines, rest, closed input lines start typed, entered, records⟩

theorem Informed.of_same {session' : Session} (informed : Informed cat session)
    (schemas : session'.schemas = session.schemas)
    (colschemas : session'.colschemas = session.colschemas) : Informed cat session' := by
  refine ⟨⟨?_, ?_⟩, ?_⟩
  · rw [schemas]
    exact informed.schemas
  · rw [colschemas]
    exact informed.colschemas
  · rw [colschemas]
    exact informed.told

theorem Client.Sound.request (kept : client.Sound floats said cat)
    (sound : Cli.Sound floats said cat) (closed : Closed said)
    (intact : ∀ name, remains name = name)
    (proper : (client.request floats remains rounds).phase.Proper) :
    (client.request floats remains rounds).Sound floats said cat := by
  have read := @readCommand_meets floats client.showPrompts remains client.session client.console
    kept.informed.toSound rounds
  rw [Client.request] at proper ⊢
  generalize readCommand floats client.showPrompts remains rounds client.session client.console =
    outcome at read proper
  cases outcome with
  | error exit =>
      refine ⟨kept.informed, kept.input, ?_, nofun⟩
      intro e same
      cases same
      exact read
  | ok result =>
      obtain ⟨entry, session, console⟩ := result
      obtain ⟨schemas, colschemas, suffix, issued⟩ := read
      have informed := kept.informed.of_same schemas colschemas
      have input := closed _ _ kept.input suffix
      cases entry with
      | quit => exact ⟨informed, input, nofun, nofun⟩
      | again =>
          refine ⟨informed, input, kept.phase, ?_⟩
          rw [colschemas]
          exact kept.cached
      | command cmd =>
          have ready := issued.ready kept.informed sound closed kept.input intact
          refine ⟨informed, input, ⟨ready, proper⟩, ?_⟩
          intro name key same
          cases same
          rw [colschemas]
          exact issued.cached

/-! ## All of them -/

section

variable {ι : Type} [DecidableEq ι] {world : World ι} {i : ι} {schedule : List ι}

structure World.Sound (floats : FloatText) (said : List Bytes → Prop) (world : World ι) : Prop where
  cat : Cli.Sound floats said world.cat
  clients : ∀ i, (world.clients i).Sound floats said world.cat

theorem World.Sound.setClient (sound : world.Sound floats said)
    (kept : client.Sound floats said world.cat) :
    (world.setClient i client).Sound floats said where
  cat := sound.cat
  clients := by
    intro j
    rw [World.setClient]
    dsimp only
    by_cases same : j = i
    · rw [same, Function.update_self]
      exact kept
    · rw [Function.update_of_ne same]
      exact sound.clients j

/-- A step keeps everybody sound, and the catalogue takes what is served. -/
theorem World.Sound.step (sound : world.Sound floats said)
    (allowed : world.Allowed floats remains rounds i) (closed : Closed said)
    (intact : ∀ name, remains name = name) :
    (world.step floats remains rounds i).1.Sound floats said ∧
      AllowedAnswers Catalogue.answer Catalogue.Takes world.cat
        (world.step floats remains rounds i).2 ∧
      (world.step floats remains rounds i).1.cat =
        (answerAll Catalogue.answer world.cat (world.step floats remains rounds i).2).1 := by
  have kept := sound.clients i
  have phase := kept.phase
  rw [World.Allowed] at allowed
  rw [World.step]
  dsimp only
  cases now : (world.clients i).phase with
  | idle =>
      rw [now] at allowed
      exact ⟨sound.setClient (kept.request sound.cat closed intact allowed), trivial, rfl⟩
  | sent cmd =>
      rw [now] at phase allowed
      have answered := sound.cat.answered phase.1 phase.2 allowed
      have others : World.Sound floats said { world with cat := (world.cat.answer cmd).1 } :=
        ⟨answered.sound, fun j => (sound.clients j).mono answered.grown⟩
      have showable : ∀ res ∈ (world.cat.answer cmd).2,
          Showable floats said (world.cat.answer cmd).1 cmd res := by
        obtain ⟨res, only, _, shown⟩ := answered.one
        rw [only]
        exact List.forall_mem_singleton.mpr shown
      have cached := @kept.cached
      rw [now] at cached
      exact ⟨others.setClient ⟨kept.informed.mono answered.grown, kept.input, showable, cached⟩,
        ⟨answered.takes, trivial⟩, rfl⟩
  | answered cmd responses =>
      rw [now] at phase
      exact ⟨sound.setClient (kept.receive sound.cat phase), trivial, rfl⟩
  | ended exit => exact ⟨sound, trivial, rfl⟩

theorem World.Sound.run (sound : world.Sound floats said)
    (allowed : AllowedAnswers (World.step floats remains rounds)
      (World.Allowed floats remains rounds) world schedule)
    (closed : Closed said) (intact : ∀ name, remains name = name) :
    (answerAll (World.step floats remains rounds) world schedule).1.Sound floats said ∧
      AllowedAnswers Catalogue.answer Catalogue.Takes world.cat
        (answerAll (World.step floats remains rounds) world schedule).2 ∧
      (answerAll (World.step floats remains rounds) world schedule).1.cat =
        (answerAll Catalogue.answer world.cat
          (answerAll (World.step floats remains rounds) world schedule).2).1 := by
  induction schedule generalizing world with
  | nil => exact ⟨sound, trivial, rfl⟩
  | cons i schedule ih =>
      obtain ⟨here, later⟩ := allowed
      obtain ⟨next, takes, cat⟩ := sound.step here closed intact
      obtain ⟨last, others, rest⟩ := ih next later
      rw [cat] at others rest
      refine ⟨last, allowedAnswers_append.mpr ⟨takes, others⟩, ?_⟩
      rw [answerAll_cons, answerAll_append]
      exact rest

/-! ## Schedules -/

/-- The clients as they are started, with all that is going to be typed. -/
structure Setup (ι : Type) where
  floats : FloatText
  remains : Bytes → Bytes := id
  rounds : Nat
  showPrompts : ι → Bool
  inputs : ι → List Bytes

namespace Setup

variable (setup : Setup ι) (schedule : List ι)

omit [DecidableEq ι] in
def opening : World ι where
  clients := fun i =>
    { showPrompts := setup.showPrompts i, console := { input := setup.inputs i } }

def step : World ι → ι → World ι × List Command :=
  World.step setup.floats setup.remains setup.rounds

/-- Where the schedule leads. -/
def reached : World ι := (answerAll setup.step setup.opening schedule).1

/-- The commands that the server has come to. -/
def served : List Command := (answerAll setup.step setup.opening schedule).2

def Allows : Prop :=
  AllowedAnswers setup.step (World.Allowed setup.floats setup.remains setup.rounds) setup.opening
    schedule

instance : Decidable (setup.Allows schedule) := inferInstanceAs (Decidable (AllowedAnswers ..))

omit [DecidableEq ι] in
/-- Some client has been typed the lines one after the other. -/
def Said (lines : List Bytes) : Prop := ∃ i, lines <:+ setup.inputs i

end Setup

variable {setup : Setup ι}

omit [DecidableEq ι] in
theorem Setup.closed_said (setup : Setup ι) : Closed setup.Said := by
  intro lines rest said suffix
  obtain ⟨i, typed⟩ := said
  exact ⟨i, suffix.trans typed⟩

omit [DecidableEq ι] in
theorem Setup.sound_opening (setup : Setup ι) : setup.opening.Sound setup.floats setup.Said :=
  ⟨⟨nofun, nofun⟩, fun i => ⟨⟨⟨nofun, nofun⟩, nofun⟩, ⟨i, List.suffix_refl _⟩, trivial, nofun⟩⟩

theorem Setup.run (intact : ∀ name, setup.remains name = name) (allowed : setup.Allows schedule) :
    (setup.reached schedule).Sound setup.floats setup.Said ∧
      AllowedAnswers Catalogue.answer Catalogue.Takes {} (setup.served schedule) ∧
      (setup.reached schedule).cat =
        (answerAll Catalogue.answer {} (setup.served schedule)).1 :=
  setup.sound_opening.run allowed setup.closed_said intact

/-- The server takes every command of the clients, in whatever order it comes to them,
and no client reads or writes outside of its memory. -/
theorem clients_take (setup : Setup ι) (intact : ∀ name, setup.remains name = name)
    (schedule : List ι) (allowed : setup.Allows schedule) :
    AllowedAnswers Catalogue.answer Catalogue.Takes {} (setup.served schedule) ∧
      (setup.reached schedule).cat = (answerAll Catalogue.answer {} (setup.served schedule)).1 ∧
      ∀ i exit, ((setup.reached schedule).clients i).phase = .ended (some exit) → exit.Benign := by
  obtain ⟨sound, takes, cat⟩ := Setup.run intact allowed
  refine ⟨takes, cat, ?_⟩
  intro i exit now
  have phase := (sound.clients i).phase
  rw [now] at phase
  exact phase exit rfl

/-- One client sets up a collection, which the other one then looks into. -/
def tellers : Setup Bool where
  floats := noFloats
  rounds := 10
  showPrompts := id
  inputs
    | true => ["schema", "account", "id", "uint64", "name", "string", "3", "end", "id",
        "collection", "bank", "account", "colschema", "bank", "put", "bank", "17", "ada", "delete",
        "bank", "4", "quit"].map text
    | false =>
        ["get", "bank", "colschema", "bank", "get", "bank", "17", "put", "bank", "x"].map text

def tellersSchedule : List Bool :=
  List.replicate 7 true ++ [false, false, true, false, true, true, false] ++
    (List.replicate 4 [true, false, true]).flatten ++ List.replicate 3 false

theorem clients_take_tellers :
    AllowedAnswers Catalogue.answer Catalogue.Takes {} (tellers.served tellersSchedule) ∧
      (tellers.reached tellersSchedule).cat =
        (answerAll Catalogue.answer {} (tellers.served tellersSchedule)).1 ∧
      ∀ i exit, ((tellers.reached tellersSchedule).clients i).phase = .ended (some exit) →
        exit.Benign :=
  clients_take tellers (fun _ => rfl) tellersSchedule (by decide +kernel)

/-- As long as no key that is put hashes to a mark or is stored over where a document has
been deleted, the database executes what it is sent and answers as the catalogue does. -/
theorem clients_served (std : StdHash) (setup : Setup ι)
    (intact : ∀ name, setup.remains name = name)
    (schedule : List ι) (allowed : setup.Allows schedule)
    (tidy : AllowedAnswers Catalogue.answer (Catalogue.Tidy std) {} (setup.served schedule)) :
    ∃ db, executeAll (databaseOps std) {} (setup.served schedule) =
        .ok (db, (answerAll Catalogue.answer {} (setup.served schedule)).2) ∧
      Represents std db (setup.reached schedule).cat := by
  obtain ⟨_, takes, cat⟩ := Setup.run intact allowed
  obtain ⟨db, ran, represents⟩ := (execute_simulates_disciplined std).run (represents_empty std)
    ((takes.and tidy).allowedRun ({} : Database))
  refine ⟨db, ?_, ?_⟩
  · rw [executeAll_eq_runAll]
    exact ran
  · rw [cat]
    exact represents

theorem clients_served_tellers :
    ∃ db, executeAll (databaseOps noHash) {} (tellers.served tellersSchedule) =
        .ok (db, (answerAll Catalogue.answer {} (tellers.served tellersSchedule)).2) ∧
      Represents noHash db (tellers.reached tellersSchedule).cat :=
  clients_served noHash tellers (fun _ => rfl) tellersSchedule (by decide +kernel)
    (by decide +kernel)

/-- What is looked up and found. -/
def Phase.lookup : Phase → Option (Bytes × Bytes × Bytes)
  | .answered (.get name key) [.found doc] => some (name, key, doc)
  | _ => none

end

end Boutique.Cli
