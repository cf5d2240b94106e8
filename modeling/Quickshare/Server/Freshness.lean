import Quickshare.Server.Rows

/-! Transfer ids. A new transfer gets the id after the largest in the table, so
ids stay distinct while the last transfer committed is not deleted, and the next
request after its deletion gets an id a second time. -/

namespace Quickshare

open Runs

section

variable {s t : Server} {c : Slot}

/-- Some transfer in the table has an id no smaller than any committed so far. -/
def Server.LastKept (s : Server) : Prop :=
  ∀ id ∈ s.committed, ∃ row ∈ s.db.tables.transfers, id ≤ row.transferId

/-- A request is granted only while the transfer with the largest id is in the table. -/
def keepsLast (s : Server) (e : Event) : Prop :=
  ∀ c t, s.delivers e = some (c, t) → t.granted c → t.LastKept

/-- No id is committed twice, up to the state in which an event leaves the server or stops it. -/
def freshIds (s : Server) (e : Event) : Prop := (Run.state (step s e)).committed.Nodup

instance (s : Server) (e : Event) : Decidable (freshIds s e) :=
  inferInstanceAs (Decidable (List.Nodup _))

theorem Database.Grants.new {cId : ClientId} {recipients : List ClientId} {tId : TransferId}
    {next : Database} (grants : s.db.Grants cId recipients tId next) (kept : s.LastKept) :
    tId ∉ s.committed := by
  intro old
  obtain ⟨row, member, above⟩ := kept tId old
  have listed := List.mem_map_of_mem (f := TransferRow.transferId) member
  rcases nextRowid_some grants.rowid with ⟨empty, -⟩ | ⟨last, -, greatest, succ⟩
  · rw [empty] at listed
    cases listed
  · have below := greatest _ listed
    rw [Int64.le_iff_toInt_le] at above below
    omega

/-- A predicate on the ids committed that fading rows keep. -/
theorem rows_rule {P : Server → Prop} {C : List TransferId → Prop}
    (keep : ∀ s t, t.committed = s.committed → s.db.Fades t.db → P s → P t)
    (ids : ∀ s, P s → C s.committed) : PacketRule P fun failed => C failed.2.committed where
  fail := fun s _ _ held => ids s held
  drain := fun s _ _ held _ => keep s _ rfl (.refl s.db) held
  close := fun s fd deleted held => Ends.mono (closeClient_fades s fd deleted)
    (fun t _ ends => keep s t ends.1 ends.2 held) fun _ same => same ▸ ids s held
  frame := fun s _ _ held => keep s _ rfl (.refl s.db) held
  setFd := fun s _ _ held => keep s _ rfl (.refl s.db) held
  secured := fun s _ held _ => keep s _ rfl (.refl s.db) held
  received := fun s _ _ held => keep s _ rfl (.refl s.db) held
  called := fun s _ held => keep s _ rfl (.refl s.db) held

/-- The ids of the rows are committed, and those committed are 1 to the largest. -/
structure Server.Counted (s : Server) : Prop where
  rows : ∀ row ∈ s.db.tables.transfers, row.transferId ∈ s.committed
  positive : ∀ id ∈ s.committed, 1 ≤ id
  below : ∀ id ∈ s.committed, ∀ j, 1 ≤ j → j ≤ id → j ∈ s.committed

theorem Server.Counted.fades (counted : s.Counted) (committed : t.committed = s.committed)
    (fades : s.db.Fades t.db) : t.Counted where
  rows := fun row member => committed ▸ counted.rows row (fades.rows.transfers row member)
  positive := committed ▸ counted.positive
  below := committed ▸ counted.below

/-- With the last transfer gone the next id is one given before. -/
theorem Database.Grants.old {cId : ClientId} {recipients : List ClientId} {tId : TransferId}
    {next : Database} (grants : s.db.Grants cId recipients tId next) (counted : s.Counted)
    (gone : ¬ s.LastKept) : tId ∈ s.committed := by
  simp only [Server.LastKept, not_forall, not_exists, not_and, Int64.not_le] at gone
  obtain ⟨id, committed, above⟩ := gone
  rcases nextRowid_some grants.rowid with ⟨-, rfl⟩ | ⟨last, listed, -, succ⟩
  · exact counted.below id committed 1 (Int64.le_refl 1) (counted.positive id committed)
  · obtain ⟨row, member, rfl⟩ := List.mem_map.mp listed
    have below := above row member
    have positive := counted.positive _ (counted.rows row member)
    rw [Int64.lt_iff_toInt_lt] at below
    rw [Int64.le_iff_toInt_le] at positive
    refine counted.below id committed tId ?_ ?_ <;> rw [Int64.le_iff_toInt_le] <;> omega

theorem Database.Grants.counted {cId : ClientId} {recipients : List ClientId} {tId : TransferId}
    (grants : s.db.Grants cId recipients tId t.db) (counted : s.Counted)
    (committed : t.committed = s.committed ++ [tId]) : t.Counted := by
  have least : 1 ≤ tId ∧ ∀ j, 1 ≤ j → j ≤ tId → j = tId ∨ j ∈ s.committed := by
    rcases nextRowid_some grants.rowid with ⟨-, rfl⟩ | ⟨last, listed, -, succ⟩
    · exact ⟨Int64.le_refl 1, fun j first last => .inl (Int64.le_antisymm last first)⟩
    · obtain ⟨row, member, rfl⟩ := List.mem_map.mp listed
      have known := counted.rows row member
      have positive := counted.positive _ known
      rw [Int64.le_iff_toInt_le] at positive
      refine ⟨by rw [Int64.le_iff_toInt_le]; omega, fun j first upto => ?_⟩
      rw [Int64.le_iff_toInt_le] at upto
      by_cases here : j = tId
      · exact .inl here
      · refine .inr (counted.below _ known j first ?_)
        have ne : j.toInt ≠ tId.toInt := fun same => here (Int64.toInt_inj.mp same)
        rw [Int64.le_iff_toInt_le]
        omega
  refine ⟨fun row member => ?_, fun id member => ?_, fun id member j first upto => ?_⟩
  · rw [grants.transfers, List.mem_append] at member
    rw [committed, List.mem_append]
    rcases member with old | new
    · exact .inl (counted.rows row old)
    · rw [List.mem_singleton.mp new]
      exact .inr (List.mem_singleton_self tId)
  · rw [committed, List.mem_append] at member
    rcases member with old | new
    · exact counted.positive id old
    · rw [List.mem_singleton.mp new]
      exact least.1
  · rw [committed, List.mem_append] at member ⊢
    rcases member with old | new
    · exact .inl (counted.below id old j first upto)
    · rw [List.mem_singleton.mp new] at upto
      rcases least.2 j first upto with here | old
      · exact .inr (List.mem_singleton.mpr here)
      · exact .inl old

theorem Server.Counted.step (counted : s.Counted) (e : Event) :
    Ends Server.Counted (fun _ => True) (Quickshare.step s e) := by
  have rule : PacketRule Server.Counted fun _ => True :=
    rows_rule (P := Server.Counted) (C := fun _ => True)
      (fun s t committed fades counted => counted.fades committed fades) fun _ _ => trivial
  refine rule.step counted e (fun _ _ _ _ _ _ _ => counted.fades rfl (.refl s.db))
    fun c t _ counted => ?_
  refine (analizePacket_rows t c).mono (fun u _ after => ?_) fun _ _ => trivial
  have ids := after.committed
  by_cases granted : t.granted c
  · rw [Server.created, if_pos granted] at ids
    exact (after.granted granted).counted counted ids
  · rw [Server.created, if_neg granted, List.append_nil] at ids
    exact counted.fades ids (after.fades granted)

/-- Where the last transfer is kept an event commits no id a second time. -/
theorem step_nodup {e : Event} (distinct : s.committed.Nodup) (kept : keepsLast s e) :
    Ends (fun t => t.committed.Nodup) (fun failed => failed.2.committed.Nodup) (step s e) := by
  have rule : PacketRule (fun t => t.committed.Nodup) fun failed => failed.2.committed.Nodup :=
    rows_rule (P := fun s => s.committed.Nodup) (C := List.Nodup)
      (fun s t same _ distinct => same ▸ distinct) fun _ distinct => distinct
  refine rule.step distinct e (fun _ _ _ _ _ _ _ => distinct) fun c t delivers distinct => ?_
  have grown : (t.committed ++ t.created c).Nodup := by
    by_cases granted : t.granted c
    · have fresh := (recorded_grants granted.2.1 granted.2.2).new (kept c t delivers granted)
      rw [Server.created, if_pos granted]
      exact List.nodup_append.mpr ⟨distinct, List.pairwise_singleton _ _, by
        rintro id old _ new rfl
        rw [List.mem_singleton] at new
        exact fresh (new ▸ old)⟩
    · rwa [Server.created, if_neg granted, List.append_nil]
  exact (analizePacket_rows t c).mono (fun u _ after => after.committed ▸ grown)
    fun failed same => same ▸ grown

theorem freshIds_of_keepsLast {e : Event} (distinct : s.committed.Nodup) (kept : keepsLast s e) :
    freshIds s e := by
  have ends := step_nodup distinct kept
  unfold freshIds
  cases ended : step s e with
  | ok t => rwa [ended] at ends
  | error failed => rwa [ended] at ends

theorem keepsLast_of_freshIds {e : Event} (counted : s.Counted) (fresh : freshIds s e) :
    keepsLast s e := by
  intro c t delivers granted
  by_contra gone
  have counted : t.Counted := by
    obtain ⟨fd, chunk, buf, -, -, rfl⟩ := delivers_received delivers
    exact counted.fades rfl (.refl s.db)
  have old := (recorded_grants granted.2.1 granted.2.2).old counted gone
  have committed : (Run.state (step s e)).committed = t.committed ++ [(t.recorded c).2.1] := by
    have after := analizePacket_rows t c
    rw [step_delivers delivers]
    cases ended : analizePacket t c with
    | ok u =>
      rw [ended] at after
      have ids := after.committed
      rwa [Server.created, if_pos granted] at ids
    | error failed =>
      rw [ended] at after
      have ids : failed.2.committed = _ := after
      rwa [Server.created, if_pos granted] at ids
  rw [freshIds, committed, List.nodup_append] at fresh
  exact fresh.2.2 _ old _ (List.mem_singleton_self _) rfl

/-- The ids committed so far are 1 to the largest, each once. -/
structure Server.Unrepeated (s : Server) : Prop where
  distinct : s.committed.Nodup
  counted : s.Counted

/-- Along every run no transfer id is committed twice if every request granted
finds the transfer with the largest id so far in the table; on a table empty at
first it is also necessary. -/
theorem fresh_ids_iff (db : Database) (events : List Event) :
    (Guarded step keepsLast (Server.init db) events →
      Guarded step freshIds (Server.init db) events) ∧
    (db.tables.transfers = [] → (Guarded step freshIds (Server.init db) events ↔
      Guarded step keepsLast (Server.init db) events)) := by
  have start : (Server.init db).committed.Nodup := List.nodup_nil
  refine ⟨fun guarded => guarded.transfer start (fun s e t distinct kept taken => ?_)
    fun s e distinct kept => freshIds_of_keepsLast distinct kept, fun empty => ?_⟩
  · have ends := step_nodup distinct kept
    rwa [taken] at ends
  · have counted : (Server.init db).Counted :=
      ⟨fun row member => by simp [Server.init, empty] at member, nofun, nofun⟩
    have start : (Server.init db).Unrepeated := ⟨start, counted⟩
    refine guarded_iff_guarded start (fun s e t held kept taken => ?_)
      fun s e held => ⟨keepsLast_of_freshIds held.counted, freshIds_of_keepsLast held.distinct⟩
    have ends := step_nodup held.distinct kept
    have later := held.counted.step e
    rw [taken] at ends later
    exact ⟨ends, later⟩

end

/-- Two clients join a session; one sends a request, takes it back and sends another. -/
def requestAgain : List Event :=
  connects 4 100 ++ connects 5 101 ++ packetFrom 4 .clientIntro (introBody 1) ++
    packetFrom 5 .clientIntro (introBody 0) ++ packetFrom 4 .transferRequest (requestBody 101) ++
    packetFrom 4 .transferCancel (stateBody 1) ++ packetFrom 4 .transferRequest (requestBody 101)

/-- The second transfer has the id of the first. -/
theorem fresh_ids_fail : ¬ Guarded step freshIds (Server.init .fresh) requestAgain := by
  decide +kernel

end Quickshare
