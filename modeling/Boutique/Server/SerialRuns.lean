import Boutique.Server.Refinement
import Boutique.Server.Serial

namespace Boutique.Server

open Boutique.Core Boutique.Data Boutique.Db Boutique.Io Boutique.Protocol World

variable {Store Coll : Type} {ops : DatabaseOps Store Coll} {alloc : Nat → List Nat → Nat}
  {listener : Fd} {ordered : Prop} {m after : ServerMachine Store} {base : World Store}
  {owed : List Nat} {rearm : List (AcceptOp Object Callback)} {db : Store}
  {history : List (Nat × Command)} {issued : List (Nat × Response)}

/-- Later steps add to the order, behind what is in it. -/
theorem run_served (fresh : ∀ count used, alloc count used ∉ used) {events : List (Event Callback)}
    (kept : Kept True listener m base owed rearm)
    (sorted : Machine.Along (host ops alloc listener) SortedAtAccept m events)
    (unsent : Machine.Along (host ops alloc listener) UnsentAtAccept m events)
    (inTurn : ordered → Machine.Along (host ops alloc listener) Machine.InTurn m events)
    (served : Served ordered ops db m history issued)
    (ran : Machine.run (host ops alloc listener) m events = .ok after) :
    (∃ base owed rearm, Kept True listener after base owed rearm) ∧
      ∃ more answers, Served ordered ops db after (history ++ more) (issued ++ answers) := by
  induction events generalizing m base owed rearm history issued with
  | nil =>
      cases ran
      refine ⟨⟨_, _, _, kept⟩, [], [], ?_⟩
      rwa [List.append_nil, List.append_nil]
  | cons event events ih =>
      obtain ⟨next, stepped, ran⟩ := bind_ok_iff.mp ran
      obtain ⟨firstSorted, sorted⟩ := sorted
      obtain ⟨firstUnsent, unsent⟩ := unsent
      rw [stepped] at sorted unsent
      have firstInTurn : ordered → m.InTurn event := fun isOrdered => (inTurn isOrdered).1
      have laterInTurn : ordered →
          Machine.Along (host ops alloc listener) Machine.InTurn next events := by
        intro isOrdered
        have later := (inTurn isOrdered).2
        rwa [stepped] at later
      obtain ⟨_, _, _, keptNext⟩ := kept.step fresh firstSorted (fun _ => firstUnsent) stepped
      obtain ⟨firstAnswers, servedNext⟩ := served.step fresh kept firstInTurn stepped
      obtain ⟨still, second, secondAnswers, servedLater⟩ :=
        ih keptNext sorted unsent laterInTurn servedNext ran
      refine ⟨still, completing m ++ second, firstAnswers ++ secondAnswers, ?_⟩
      rwa [← List.append_assoc, ← List.append_assoc]

/-- As long as, whenever a connection is accepted, closed handlers stand behind
open ones and no response to them waits, executing the commands of all clients one
by one in some order explains the database, and what each connection is sent if
sends are in turn. The order extends that at any earlier time. -/
theorem server_serializable (ops : DatabaseOps Store Coll) (alloc : Nat → List Nat → Nat)
    (fresh : ∀ count used, alloc count used ∉ used) (listener : Fd) (db : Store)
    (events later : List (Event Callback))
    (sorted : Machine.Along (host ops alloc listener) SortedAtAccept (start db) (events ++ later))
    (unsent : Machine.Along (host ops alloc listener) UnsentAtAccept (start db) (events ++ later))
    (after : ServerMachine Store)
    (ran : Machine.run (host ops alloc listener) (start db) (events ++ later) = .ok after) :
    let inTurn :=
      Machine.Along (host ops alloc listener) Machine.InTurn (start db) (events ++ later)
    ∃ m history issued more answers,
      Machine.run (host ops alloc listener) (start db) events = .ok m ∧
        Served inTurn ops db m history issued ∧
        Served inTurn ops db after (history ++ more) (issued ++ answers) := by
  intro inTurn
  obtain ⟨m, first, second⟩ := Machine.run_split ran
  obtain ⟨sorted, sortedLater⟩ := sorted.split first
  obtain ⟨unsent, unsentLater⟩ := unsent.split first
  obtain ⟨⟨_, _, _, kept⟩, history, issued, served⟩ := run_served fresh (kept_start db) sorted
    unsent (fun isOrdered => (Machine.Along.split isOrdered first).1) (served_start ops db) first
  rw [List.nil_append, List.nil_append] at served
  obtain ⟨_, more, answers, servedLater⟩ := run_served fresh kept sortedLater unsentLater
    (fun isOrdered => (Machine.Along.split isOrdered first).2) served second
  exact ⟨m, history, issued, more, answers, first, served, servedLater⟩

theorem server_serializable_traders :
    (Machine.run (host (databaseOps noHash) nextAddress 3) (start {})
      (traders.take 24 ++ traders.drop 24)).isOk = true ∧
    Machine.Along (host (databaseOps noHash) nextAddress 3) Machine.InTurn (start {})
      (traders.take 24 ++ traders.drop 24) ∧
    ∀ after, Machine.run (host (databaseOps noHash) nextAddress 3) (start {})
        (traders.take 24 ++ traders.drop 24) = .ok after →
      let inTurn :=
        Machine.Along (host (databaseOps noHash) nextAddress 3) Machine.InTurn (start {})
          (traders.take 24 ++ traders.drop 24)
      ∃ m history issued more answers,
        Machine.run (host (databaseOps noHash) nextAddress 3) (start {}) (traders.take 24) = .ok m ∧
          Served inTurn (databaseOps noHash) {} m history issued ∧
          Served inTurn (databaseOps noHash) {} after (history ++ more) (issued ++ answers) :=
  ⟨by decide +kernel, by decide +kernel, server_serializable (databaseOps noHash) nextAddress
    nextAddress_fresh 3 {} _ _ (by decide +kernel) (by decide +kernel)⟩

end Boutique.Server
