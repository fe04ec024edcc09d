import Boutique.Db.CollectionKeys
import Boutique.Db.CollectionLoad
import Boutique.Server.DocumentCommands

namespace Boutique.Server

open Boutique.Data Boutique.Db Boutique.Protocol

/-! # The answer to a `put`

A collection that has room answers every `put` that returns with success, and
every collection the server keeps has room. -/

variable {std : StdHash} {db db' : Database} {cmd : Command} {responses : List Response}

/-- No key of any type hashes to a mark. -/
def Unmarked (std : StdHash) : Prop :=
  ∀ (access : KeyAccess) (key : Bytes), access.IsKey key → Hashable (access.hash std key)

theorem loaded_invariant (unmarked : Unmarked std) : Invariant std Collection.Loaded where
  new := Collection.new_loaded
  put loaded put := loaded.put put
  remove loaded removed := loaded.remove (unmarked _ _) removed

theorem execute_not_failed (every : Every Collection.Loaded db)
    (run : execute (databaseOps std) db cmd = .ok (db', responses)) :
    Response.failed ∉ responses := by
  intro failed
  obtain ⟨collName, coll, value, full, present, put⟩ := (execute_ok run).2.2 failed
  obtain ⟨⟨dest, after⟩, placed, same⟩ := bind_ok_iff.mp put
  cases dest with
  | none => exact (every _ _ present).put_ne_none.2 value after placed
  | some dest => cases same

theorem executeAll_not_failed {cmds : List Command} (unmarked : Unmarked std)
    (every : Every Collection.Loaded db)
    (run : executeAll (databaseOps std) db cmds = .ok (db', responses)) :
    Response.failed ∉ responses := by
  induction cmds generalizing db responses with
  | nil =>
      cases run
      simp
  | cons cmd cmds ih =>
      obtain ⟨first, one, run⟩ := bind_ok_iff.mp run
      obtain ⟨second, others, done⟩ := bind_ok_iff.mp run
      cases done
      rw [List.mem_append]
      exact not_or.mpr ⟨execute_not_failed every one,
        ih ((loaded_invariant unmarked).execute every one) others⟩

/-- The load stays below its limit in every run of a collection, so that `put`
never gives up, and the server never says that it failed. -/
theorem put_never_fails (std : StdHash) :
    (∀ schema fresh ops after, Collection.new schema = .ok fresh →
      (∀ key, fresh.key.IsKey key → Hashable (fresh.key.hash std key)) →
      Collection.run std fresh ops = .ok after →
      (after.buckets = [] ∧ after.count = 0 ∨ ∃ k, after.buckets.length = 32 * 2 ^ k) ∧
      Collection.liveCount after.buckets ≤ after.count ∧
      (after.buckets ≠ [] → after.count + 1 ≤ 5 * after.buckets.length / 7) ∧
      after.growBuckets std ≠ .ok none ∧ ∀ data next, after.put std data ≠ .ok (none, next)) ∧
    (Unmarked std → ∀ cmds db responses,
      executeAll (databaseOps std) {} cmds = .ok (db, responses) → .failed ∉ responses) := by
  constructor
  · intro schema fresh ops after built hashable ran
    have loaded := (Collection.new_loaded built).run hashable ran
    exact ⟨loaded.bucketCount, loaded.live, loaded.load, loaded.put_ne_none⟩
  · intro unmarked cmds db responses run
    exact executeAll_not_failed unmarked (every_empty _) run

open Collection

/-- A ledger that reuses the bucket of a removed entry and stores 33 twice. -/
theorem put_never_fails_ledger :
    ∃ after, Collection.run boundedHash emptyLedger [.put (ledgerEntry 1 5),
        .put (ledgerEntry 33 6), .remove (leBytes 8 1), .put (ledgerEntry 33 7)] = .ok after ∧
      after.growBuckets boundedHash ≠ .ok none ∧
      (∀ data next, after.put boundedHash data ≠ .ok (none, next)) ∧
      ∃ db responses, executeAll (databaseOps boundedHash) {} [.registerSchema [108] ledgerSchema,
          .createCollection [99] [108], .put [99] (ledgerEntry 1 5)] = .ok (db, responses) ∧
        Response.failed ∉ responses := by
  have counted : count <$> Collection.run boundedHash emptyLedger [.put (ledgerEntry 1 5),
      .put (ledgerEntry 33 6), .remove (leBytes 8 1), .put (ledgerEntry 33 7)] = .ok 2 := by
    decide +kernel
  obtain ⟨after, ran, _⟩ := exists_of_map_ok counted
  have answered : (fun outcome => outcome.2.length) <$> executeAll (databaseOps boundedHash) {}
      [.registerSchema [108] ledgerSchema, .createCollection [99] [108],
        .put [99] (ledgerEntry 1 5)] = .ok 3 := by decide +kernel
  obtain ⟨⟨db, responses⟩, executed, _⟩ := exists_of_map_ok answered
  have both := put_never_fails boundedHash
  have room := both.1 ledgerSchema emptyLedger _ after new_ledger
    (fun key _ => hashable_boundedHash _ key) ran
  exact ⟨after, ran, room.2.2.2.1, room.2.2.2.2, db, responses, executed,
    both.2 (fun access key _ => hashable_boundedHash access key) _ _ _ executed⟩

end Boutique.Server
