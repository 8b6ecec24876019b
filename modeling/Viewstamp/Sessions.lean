import Viewstamp.Commit

/- The client session table as a replicated object.

   A row holds the highest request a client may not repeat, the last reply, and
   the op that was applied last. Rows of requests that are only accepted, and the
   watermarks that run ahead of what is applied, are one replica's own; the rest
   is a function of the applied operations. `project` cuts the table down to that
   rest, and everything an apply does (the eviction included) commutes with it. -/
namespace Viewstamp

open List

abbrev SessionTable := OrdMap ClientId Session

/-- What a row says about applied operations alone. -/
def Session.committed (s : Session) : Option Session :=
  s.reply.map fun r => { request := r.1, reply := some r, lastOp := s.lastOp }

namespace SessionTable

/-- `committed_session_projection`. -/
def project (t : SessionTable) : SessionTable := t.filterMap fun _ s => s.committed

/-- The row an apply leaves. -/
def appliedRow (session : Session) (op : OpNumber) (request : RequestNumber) (reply : Bytes) :
    Session :=
  { request := max session.request request
    reply := if session.reply.all (fun r => decide (r.1 ≤ request)) then some (request, reply)
      else session.reply
    lastOp := op }

/-- The applied rows, as the eviction sees them: last op and client. -/
def appliedRows (t : SessionTable) : List (OpNumber × ClientId) :=
  (t.entries.filter fun e => decide (0 < e.2.lastOp)).map fun e => (e.2.lastOp, e.1)

/-- The table after an apply. -/
def noteApplied (cap : Nat) (t : SessionTable) (op : OpNumber) (client : ClientId)
    (request : RequestNumber) (reply : Bytes) : SessionTable :=
  let session := (t.get? client).getD {}
  let t := t.insert client (appliedRow session op request reply)
  if session.lastOp = 0 then Node.evictSessions ((appliedRows t).length - cap) t else t

theorem length_appliedRows (t : SessionTable) :
    (t.values.countP fun s => decide (0 < s.lastOp)) = (appliedRows t).length := by
  rw [OrdMap.values, countP_map, countP_eq_length_filter, appliedRows, length_map]
  rfl

end SessionTable

theorem Node.noteAppliedSession_eq {S : Type} (n : Node S) (op : OpNumber) (client : ClientId)
    (request : RequestNumber) (reply : Bytes) :
    n.noteAppliedSession op client request reply =
      { n with
        clients := SessionTable.noteApplied n.config.maxClientSessions n.clients op client
          request reply } := by
  unfold Node.noteAppliedSession SessionTable.noteApplied SessionTable.appliedRow
  dsimp only
  simp only [SessionTable.length_appliedRows]
  split <;> split <;> rfl

namespace SessionTable

variable {c : ClientId} {s row : Session} {op position : OpNumber} {cap : Nat}

/-! ## Sound tables -/

/-- A row has a reply exactly when an operation of its client was applied. -/
def Sound (t : SessionTable) : Prop :=
  ∀ c s, t.get? c = some s → (s.reply.isSome = true ↔ 0 < s.lastOp)

theorem Sound.empty : Sound .empty := fun _ _ h => nomatch h

variable {t : SessionTable}

theorem Sound.insert (h : Sound t) (hs : s.reply.isSome = true ↔ 0 < s.lastOp) :
    Sound (t.insert c s) := by
  intro c' s' hget
  rw [OrdMap.get?_insert] at hget
  split at hget
  · cases hget
    exact hs
  · exact h c' s' hget

theorem Sound.erase (h : Sound t) (c : ClientId) : Sound (t.erase c) := by
  intro c' s' hget
  rw [OrdMap.get?_erase] at hget
  split at hget
  · cases hget
  · exact h c' s' hget

theorem Sound.evict (excess : Nat) : ∀ {t : SessionTable}, Sound t →
    Sound (Node.evictSessions excess t) := by
  induction excess with
  | zero => exact fun h => h
  | succ excess ih =>
    intro t h
    unfold Node.evictSessions
    split
    · exact h
    · exact ih (h.erase _)

theorem appliedRow_sound (s : Session) (hop : 0 < op) (request : RequestNumber)
    (reply : Bytes) :
    (appliedRow s op request reply).reply.isSome = true ↔
      0 < (appliedRow s op request reply).lastOp := by
  unfold appliedRow
  dsimp only
  split
  · simpa using hop
  · rename_i hall
    cases hr : s.reply with
    | none => simp [hr] at hall
    | some r => simpa using hop

theorem Sound.noteApplied (h : Sound t) (cap : Nat) (hop : 0 < op) (client : ClientId)
    (request : RequestNumber) (reply : Bytes) :
    Sound (noteApplied cap t op client request reply) := by
  have hins := h.insert (c := client) (appliedRow_sound ((t.get? client).getD {}) hop request reply)
  unfold SessionTable.noteApplied
  dsimp only
  split
  · exact hins.evict _
  · exact hins

/-! ## The projection -/

theorem get?_project (t : SessionTable) (c : ClientId) :
    (project t).get? c = (t.get? c).bind Session.committed :=
  OrdMap.get?_filterMap t _ c

theorem project_erase (t : SessionTable) (c : ClientId) :
    project (t.erase c) = (project t).erase c := by
  apply OrdMap.ext_get?
  intro j
  rw [get?_project, OrdMap.get?_erase, OrdMap.get?_erase, get?_project]
  split <;> rfl

theorem project_insert (t : SessionTable) (c : ClientId) (h : s.committed = some row) :
    project (t.insert c s) = (project t).insert c row := by
  apply OrdMap.ext_get?
  intro j
  rw [get?_project, OrdMap.get?_insert, OrdMap.get?_insert, get?_project]
  split
  · exact h
  · rfl

theorem committed_committed (h : s.committed = some row) : row.committed = some row := by
  obtain ⟨r, -, rfl⟩ := Option.map_eq_some_iff.mp h
  rfl

theorem project_project (t : SessionTable) : project (project t) = project t := by
  apply OrdMap.ext_get?
  intro j
  rw [get?_project, get?_project]
  cases hg : t.get? j with
  | none => rfl
  | some s =>
    cases hs : s.committed with
    | none => simp [hs]
    | some row => simp [hs, committed_committed hs]

theorem Sound.project (h : Sound t) : Sound (project t) := by
  intro c row hget
  rw [get?_project] at hget
  obtain ⟨s, hs, hrow⟩ := Option.bind_eq_some_iff.mp hget
  obtain ⟨r, hr, rfl⟩ := Option.map_eq_some_iff.mp hrow
  have hlast := (h c s hs).mp (by rw [hr]; rfl)
  exact ⟨fun _ => hlast, fun _ => rfl⟩

/-- The eviction sees the same rows through the projection. -/
theorem appliedRows_project (h : Sound t) : appliedRows (project t) = appliedRows t := by
  have hmem : ∀ e ∈ t.entries, (e.2.reply.isSome = true ↔ 0 < e.2.lastOp) :=
    fun e he => h e.1 e.2 (OrdMap.mem_entries.mp he)
  unfold appliedRows project OrdMap.filterMap
  dsimp only
  generalize t.entries = es at hmem
  induction es with
  | nil => rfl
  | cons e es ih =>
    have ih := ih fun x hx => hmem x (mem_cons_of_mem e hx)
    have he := hmem e mem_cons_self
    cases hr : e.2.reply with
    | none =>
      have hlast : ¬ 0 < e.2.lastOp := by simpa [hr] using he
      rw [filterMap_cons_none (by simp [Session.committed, hr]),
        filter_cons_of_neg (by simpa using hlast)]
      exact ih
    | some r =>
      have hlast : 0 < e.2.lastOp := by simpa [hr] using he
      rw [filterMap_cons_some
          (b := (e.1, { request := r.1, reply := some r, lastOp := e.2.lastOp }))
          (by simp [Session.committed, hr]),
        filter_cons_of_pos (by simpa using hlast),
        filter_cons_of_pos (by simpa using hlast), map_cons, map_cons, ih]

/-- The older of the row kept so far and the next one; the earlier one wins a tie. -/
def older (best : Option (OpNumber × ClientId)) (e : OpNumber × ClientId) :
    Option (OpNumber × ClientId) :=
  match best with
  | none => some e
  | some (lastOp, _) => if e.1 < lastOp then some e else best

/-- The victim is chosen among the applied rows. -/
def victimOf (rows : List (OpNumber × ClientId)) : Option ClientId :=
  (rows.foldl older none).map Prod.snd

theorem evictionVictim_eq (t : SessionTable) :
    Node.evictionVictim t = victimOf (appliedRows t) := by
  unfold Node.evictionVictim victimOf appliedRows
  rw [foldl_map]
  rfl

theorem project_evict (excess : Nat) : ∀ {t : SessionTable}, Sound t →
    project (Node.evictSessions excess t) = Node.evictSessions excess (project t) := by
  induction excess with
  | zero => exact fun _ => rfl
  | succ excess ih =>
    intro t h
    unfold Node.evictSessions
    rw [evictionVictim_eq, evictionVictim_eq, appliedRows_project h]
    cases victimOf (appliedRows t) with
    | none => rfl
    | some victim =>
      dsimp only
      rw [ih (h.erase victim), project_erase]

theorem committed_of_sound (h : s.reply.isSome = true ↔ 0 < s.lastOp) :
    s.committed.getD {} =
      { request := (s.reply.map Prod.fst).getD 0, reply := s.reply, lastOp := s.lastOp } := by
  cases hr : s.reply with
  | none =>
    have hlast : s.lastOp = 0 := by simpa [hr] using h
    simp [Session.committed, hr, hlast]
  | some r => simp [Session.committed, hr]

/-- The row an apply leaves is the one it leaves in the projection. -/
theorem committed_appliedRow (h : s.reply.isSome = true ↔ 0 < s.lastOp)
    (op : OpNumber) (request : RequestNumber) (reply : Bytes) :
    (appliedRow s op request reply).committed
      = some (appliedRow (s.committed.getD {}) op request reply) := by
  rw [committed_of_sound h]
  unfold appliedRow Session.committed
  cases hr : s.reply with
  | none => simp
  | some r =>
    by_cases hle : r.1 ≤ request
    · simp [hle]
    · simp [hle, Nat.max_eq_left (Nat.le_of_lt (Nat.lt_of_not_le hle))]

/-- An apply is the same seen through the projection. -/
theorem project_noteApplied (h : Sound t) (cap : Nat)
    (hop : 0 < op) (client : ClientId) (request : RequestNumber) (reply : Bytes) :
    project (noteApplied cap t op client request reply)
      = noteApplied cap (project t) op client request reply := by
  have hs : ((t.get? client).getD {}).reply.isSome = true ↔
      0 < ((t.get? client).getD {}).lastOp := by
    cases hg : t.get? client with
    | none => simp
    | some s => exact h client s hg
  have hrow : ((project t).get? client).getD {} =
      (((t.get? client).getD {}).committed).getD {} := by
    rw [get?_project]
    cases t.get? client <;> rfl
  have hlast : (((project t).get? client).getD {}).lastOp = ((t.get? client).getD {}).lastOp := by
    rw [hrow, committed_of_sound hs]
  have hins : project (t.insert client (appliedRow ((t.get? client).getD {}) op request reply))
      = (project t).insert client
        (appliedRow (((project t).get? client).getD {}) op request reply) := by
    rw [hrow]
    exact project_insert t client (committed_appliedRow hs op request reply)
  have hsound :=
    h.insert (c := client) (appliedRow_sound ((t.get? client).getD {}) hop request reply)
  unfold noteApplied
  dsimp only
  rw [hlast, ← hins, appliedRows_project hsound]
  split
  · exact project_evict _ hsound
  · rfl

/-! ## The cap -/

theorem older_cases (best : Option (OpNumber × ClientId)) (e : OpNumber × ClientId) :
    (older best e = some e ∧ ∀ x ∈ best, e.1 < x.1) ∨
      (older best e = best ∧ ∃ x ∈ best, x.1 ≤ e.1) := by
  cases best with
  | none => exact .inl ⟨rfl, by simp⟩
  | some x =>
    by_cases hlt : e.1 < x.1
    · exact .inl ⟨if_pos hlt, by simpa using hlt⟩
    · exact .inr ⟨if_neg hlt, x, rfl, Nat.le_of_not_lt hlt⟩

/-- The fold holds a row of the part it has read, and no row of that part is below it. -/
theorem foldl_older_min : ∀ (todo read : List (OpNumber × ClientId))
    (best : Option (OpNumber × ClientId)), (∀ b ∈ best, b ∈ read ∧ ∀ r ∈ read, b.1 ≤ r.1) →
    (best = none → read = []) →
    ∀ b ∈ todo.foldl older best, b ∈ read ++ todo ∧ ∀ r ∈ read ++ todo, b.1 ≤ r.1 := by
  intro todo
  induction todo with
  | nil =>
    intro read best hbest _ b hb
    simpa using hbest b hb
  | cons e todo ih =>
    intro read best hbest hnone
    have hnext := ih (read ++ [e]) (older best e)
    rw [append_assoc, singleton_append] at hnext
    rw [foldl_cons]
    rcases older_cases best e with ⟨he, hlt⟩ | ⟨he, x, hx, hle⟩
    · refine hnext (fun b hb => ?_) (by rw [he]; simp)
      obtain rfl : e = b := by simpa [he] using hb
      refine ⟨by simp, fun r hr => ?_⟩
      rcases mem_append.mp hr with hr | hr
      · cases hbest' : best with
        | none => simp [hnone hbest'] at hr
        | some x =>
          exact Nat.le_trans (Nat.le_of_lt (hlt x hbest')) ((hbest x hbest').2 r hr)
      · rw [mem_singleton.mp hr]
    · rw [he] at hnext
      rw [he]
      refine hnext (fun b hb => ?_) (by rw [Option.mem_def.mp hx]; simp)
      obtain rfl : b = x := Option.mem_unique hb hx
      obtain ⟨hmem, hmin⟩ := hbest b hb
      refine ⟨mem_append_left _ hmem, fun r hr => ?_⟩
      rcases mem_append.mp hr with hr | hr
      · exact hmin r hr
      · rw [mem_singleton.mp hr]
        exact hle

/-- The victim has the smallest last op. -/
theorem victimOf_min {rows : List (OpNumber × ClientId)} (h : victimOf rows = some c) :
    ∃ op, (op, c) ∈ rows ∧ ∀ r ∈ rows, op ≤ r.1 := by
  obtain ⟨⟨op, c'⟩, hb, rfl⟩ := Option.map_eq_some_iff.mp h
  have hspec := foldl_older_min rows [] none (by simp) (fun _ => rfl) (op, c') hb
  exact ⟨op, by simpa using hspec⟩

theorem victimOf_isSome {rows : List (OpNumber × ClientId)} (h : rows ≠ []) :
    (victimOf rows).isSome = true := by
  have hkept : ∀ (todo : List (OpNumber × ClientId)) (best : Option (OpNumber × ClientId)),
      best.isSome = true → (todo.foldl older best).isSome = true := by
    intro todo
    induction todo with
    | nil => exact fun _ hb => hb
    | cons e todo ih =>
      intro best hb
      refine ih (older best e) ?_
      rcases older_cases best e with ⟨he, -⟩ | ⟨he, -⟩
      · rw [he]; rfl
      · rw [he]; exact hb
  cases rows with
  | nil => exact absurd rfl h
  | cons e rows =>
    rw [victimOf, Option.isSome_map]
    exact hkept rows _ rfl

/-- A table of applied rows that fits, with every row at or below `position`. -/
structure Tidy (cap : Nat) (position : OpNumber) (t : SessionTable) : Prop where
  row : ∀ c s, t.get? c = some s → 0 < s.lastOp ∧ s.lastOp ≤ position
  size_le : t.size ≤ cap

theorem Tidy.empty (cap : Nat) (position : OpNumber) : Tidy cap position .empty :=
  ⟨fun _ _ h => (nomatch h), Nat.zero_le cap⟩

theorem length_appliedRows_of_pos (h : ∀ c s, t.get? c = some s → 0 < s.lastOp) :
    (appliedRows t).length = t.size := by
  have hall : t.entries.filter (fun e => decide (0 < e.2.lastOp)) = t.entries :=
    filter_eq_self.mpr fun e he => decide_eq_true (h e.1 e.2 (OrdMap.mem_entries.mp he))
  rw [appliedRows, hall, length_map]
  rfl

theorem mem_appliedRows :
    (op, c) ∈ appliedRows t ↔ 0 < op ∧ ∃ s, t.get? c = some s ∧ s.lastOp = op := by
  constructor
  · intro h
    obtain ⟨e, he, heq⟩ := mem_map.mp h
    obtain ⟨hmem, hpos⟩ := mem_filter.mp he
    cases heq
    exact ⟨by simpa using hpos, e.2, OrdMap.mem_entries.mp hmem, rfl⟩
  · rintro ⟨hpos, s, hget, rfl⟩
    exact mem_map.mpr
      ⟨(c, s), mem_filter.mpr ⟨OrdMap.mem_entries.mpr hget, by simpa using hpos⟩, rfl⟩

theorem Tidy.insert_row (h : Tidy cap position t) (client : ClientId) (session : Session)
    (request : RequestNumber) (reply : Bytes) (c : ClientId) (s : Session)
    (hget : (t.insert client (appliedRow session (position + 1) request reply)).get? c = some s) :
    0 < s.lastOp ∧ s.lastOp ≤ position + 1 := by
  rw [OrdMap.get?_insert] at hget
  split at hget
  · cases hget
    exact ⟨Nat.succ_pos position, Nat.le_refl _⟩
  · obtain ⟨hpos, hle⟩ := h.row c s hget
    exact ⟨hpos, Nat.le_succ_of_le hle⟩

/-- The victim of a full table is not the row that was just written. -/
theorem Tidy.victim_ne (h : Tidy cap position t) (hsize : 0 < t.size) {client : ClientId}
    (habsent : t.get? client = none) (hrow : row.lastOp = position + 1) {victim : ClientId}
    (hv : victimOf (appliedRows (t.insert client row)) = some victim) : victim ≠ client := by
  obtain ⟨⟨c0, s0⟩, hmem⟩ := exists_mem_of_length_pos hsize
  have hget0 : t.get? c0 = some s0 := OrdMap.mem_entries.mp hmem
  obtain ⟨hpos0, hle0⟩ := h.row c0 s0 hget0
  have hne0 : c0 ≠ client := by
    rintro rfl
    rw [habsent] at hget0
    cases hget0
  obtain ⟨op, hop, hmin⟩ := victimOf_min hv
  have hold : op ≤ s0.lastOp := hmin (s0.lastOp, c0) (mem_appliedRows.mpr
    ⟨hpos0, s0, by rw [OrdMap.get?_insert_of_ne _ _ hne0, hget0], rfl⟩)
  rintro rfl
  obtain ⟨-, s, hs, rfl⟩ := mem_appliedRows.mp hop
  rw [OrdMap.get?_insert_self] at hs
  cases hs
  rw [hrow] at hold
  exact Nat.not_succ_le_self position (Nat.le_trans hold hle0)

/-- An apply evicts at most one row, and never the row it writes. -/
theorem Tidy.noteApplied
    (h : Tidy cap position t) (hcap : 0 < cap) (client : ClientId) (request : RequestNumber)
    (reply : Bytes) :
    Tidy cap (position + 1) (noteApplied cap t (position + 1) client request reply) ∧
      ((noteApplied cap t (position + 1) client request reply).get? client).isSome = true := by
  unfold SessionTable.noteApplied
  extract_lets session t'
  have hrows := h.insert_row client session request reply
  have hself : (t'.get? client).isSome = true := by simp [t']
  split
  · rename_i hfresh
    have habsent : t.get? client = none := by
      cases hg : t.get? client with
      | none => rfl
      | some s =>
        have hs : session = s := by simp [session, hg]
        rw [hs] at hfresh
        exact absurd hfresh (Nat.ne_of_gt (h.row client s hg).1)
    have hlen : (appliedRows t').length = t'.size :=
      length_appliedRows_of_pos fun c s hg => (hrows c s hg).1
    have hgrow : t'.size ≤ t.size + 1 := OrdMap.size_insert_le t client _
    rw [hlen]
    by_cases hfits : t'.size ≤ cap
    · rw [Nat.sub_eq_zero_of_le hfits]
      exact ⟨⟨hrows, hfits⟩, hself⟩
    · have hfull : t'.size = cap + 1 := by have := h.size_le; omega
      have hrows_ne : appliedRows t' ≠ [] := by
        intro hnil
        rw [hnil] at hlen
        simp only [length_nil] at hlen
        omega
      obtain ⟨victim, hv⟩ := Option.isSome_iff_exists.mp (victimOf_isSome hrows_ne)
      have hne : victim ≠ client :=
        h.victim_ne (by omega) habsent rfl hv
      have hone : t'.size - cap = 1 := by omega
      rw [hone]
      unfold Node.evictSessions
      rw [evictionVictim_eq, hv]
      dsimp only
      unfold Node.evictSessions
      refine ⟨⟨fun c s hg => ?_, ?_⟩, ?_⟩
      · rw [OrdMap.get?_erase] at hg
        split at hg
        · cases hg
        · exact hrows c s hg
      · obtain ⟨op, hop, -⟩ := victimOf_min hv
        obtain ⟨-, s, hs, -⟩ := mem_appliedRows.mp hop
        have hlt := OrdMap.size_erase_lt (OrdMap.contains_iff.mpr ⟨s, hs⟩)
        omega
      · rw [OrdMap.get?_erase, if_neg (Ne.symm hne)]
        exact hself
  · rename_i hknown
    have hthere : t.contains client = true := by
      cases hg : t.get? client with
      | none => exact absurd (by simp [session, hg]) hknown
      | some s => exact OrdMap.contains_iff.mpr ⟨s, hg⟩
    refine ⟨⟨hrows, ?_⟩, hself⟩
    rw [OrdMap.size_insert_of_contains hthere]
    exact h.size_le

end SessionTable

end Viewstamp
