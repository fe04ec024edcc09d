import Boutique.Cli.NetworkSteps

namespace Boutique.Cli

open Boutique.Core Boutique.Data Boutique.Db Boutique.Io Boutique.Protocol Boutique.Server

/-! # Runs of clients on their connections -/

variable {std : StdHash} {setup : Setup Nat} {alloc : Nat → List Nat → Nat} {listener : Fd}
  {network after : Network Database} {world : World Nat} {history : List (Nat × Command)}
  {issued : List (Nat × Response)} {schedule : List Nat}

theorem Mirrors.run {actions : List Action}
    (mirrors : Mirrors std setup listener network world history issued)
    (fresh : ∀ count used, alloc count used ∉ used) (intact : ∀ name, setup.remains name = name)
    (orderly : AlongRun (Network.step setup (databaseOps std) alloc listener) Network.Orderly
      network actions)
    (ran : runAll (Network.step setup (databaseOps std) alloc listener) network actions =
      .ok (after, schedule))
    (allowed : AllowedAnswers setup.step
      (World.Allowed setup.floats setup.remains setup.rounds) world schedule)
    (tidy : AllowedAnswers Catalogue.answer (Catalogue.Tidy std) world.cat
      (answerAll setup.step world schedule).2) :
    ∃ more answers, more.map Prod.snd = (answerAll setup.step world schedule).2 ∧
      Mirrors std setup listener after (answerAll setup.step world schedule).1 (history ++ more)
        (issued ++ answers) := by
  induction actions generalizing network world history issued schedule with
  | nil =>
      cases ran
      refine ⟨[], [], rfl, ?_⟩
      rwa [List.append_nil, List.append_nil]
  | cons action actions ih =>
      obtain ⟨next, first, later, stepped, rest, rfl⟩ := runAll_cons_iff.mp ran
      obtain ⟨here, orderly⟩ := orderly
      rw [stepped] at orderly
      obtain ⟨allowed, allowedLater⟩ := allowedAnswers_append.mp allowed
      rw [answerAll_append] at tidy ⊢
      obtain ⟨tidy, tidyLater⟩ := allowedAnswers_append.mp tidy
      obtain ⟨_, _, cat⟩ := mirrors.sound.run allowed setup.closed_said intact
      obtain ⟨cmds, answers, same, mirrors⟩ :=
        mirrors.step fresh intact here allowed tidy stepped
      obtain ⟨more, others, same', mirrors⟩ :=
        ih mirrors orderly rest allowedLater (cat ▸ tidyLater)
      refine ⟨cmds ++ more, answers ++ others, ?_, ?_⟩
      · rw [List.map_append, same, same']
      · rwa [← List.append_assoc, ← List.append_assoc]

theorem mirrors_opening (std : StdHash) (setup : Setup Nat) (listener : Fd) :
    Mirrors std setup listener (Network.opening setup {}) setup.opening [] [] where
  served := served_start (databaseOps std) {}
  represents := represents_empty std
  linked := fun _ => ⟨rfl, rfl, rfl, .idle rfl rfl rfl⟩
  transported := nofun
  sound := setup.sound_opening
  kept := ⟨_, _, _, kept_start _⟩
  one := oneEach_start _
  commands := nofun
  responses := nofun

/-- Orderly actions lead here, and take the clients on in the order of the schedule. -/
def Network.Reached (std : StdHash) (setup : Setup Nat) (alloc : Nat → List Nat → Nat)
    (listener : Fd) (network : Network Database) (schedule : List Nat) : Prop :=
  ∃ actions, AlongRun (Network.step setup (databaseOps std) alloc listener) Network.Orderly
      (Network.opening setup {}) actions ∧
    runAll (Network.step setup (databaseOps std) alloc listener) (Network.opening setup {})
      actions = .ok (network, schedule)

theorem Network.Reached.mirrors (reached : network.Reached std setup alloc listener schedule)
    (fresh : ∀ count used, alloc count used ∉ used) (intact : ∀ name, setup.remains name = name)
    (allowed : setup.Allows schedule)
    (tidy : AllowedAnswers Catalogue.answer (Catalogue.Tidy std) {} (setup.served schedule)) :
    ∃ history issued, history.map Prod.snd = setup.served schedule ∧
      Mirrors std setup listener network (setup.reached schedule) history issued := by
  obtain ⟨actions, orderly, ran⟩ := reached
  obtain ⟨history, issued, same, mirrors⟩ :=
    (mirrors_opening std setup listener).run fresh intact orderly ran allowed tidy
  exact ⟨history, issued, same, mirrors⟩

def ticks (count : Nat) : List Action := List.replicate count (.server .tick)

/-- A piece of a command on its way, with `ahead` receives in front of that of the client
and `running` rounds of its handler. -/
def piece (i fd ahead running : Nat) (data : Bytes) : List Action :=
  [.send i data.length, .server (.select [fd] [])] ++ ticks ahead ++
    [.server (.recv data)] ++ ticks (running + (1 - ahead) + 2)

/-- A command in two pieces, and the first byte of the response. -/
def exchange (i fd ahead : Nat) (cmd : Command) (res : Response) : List Action :=
  .request i :: piece i fd ahead 2 ((writeCommand cmd).take 3) ++
    piece i fd 1 3 ((writeCommand cmd).drop 3) ++ [.server (.select [] [fd])] ++ ticks 2 ++
    [.server (.send (writeResponse res).length)] ++ ticks 3 ++
    [.recv i ((writeResponse res).take 1)]

end Boutique.Cli
