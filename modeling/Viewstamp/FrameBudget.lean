import Mathlib.Order.Interval.Finset.Nat
import Viewstamp.Codec.WireSize
import Viewstamp.Holding
import Viewstamp.Moves.Handle
import Viewstamp.Transport.Router

/- What a replica sends fits a frame.

   The longest body a request may have leaves room for every way the body is sent: in the
   request, in a prepare, and as the only entry of either batch. The two packing loops always
   admit a first entry, so that this room is what keeps a batch within its frame; every later
   entry is admitted only when the sum still fits. The bodies a replica sends are those of its
   log. -/
namespace Viewstamp

open List

open Protobuf

/-! ## The budget of each carrier -/

theorem maxRequestBodyLen_eq : maxRequestBodyLen = 16777095 := rfl

theorem presentEntryEncodedLen_le {len : Nat} (h : len ≤ maxRequestBodyLen) :
    presentEntryEncodedLen len ≤ maxFrameLen - prepareBatchCarrierOverhead := by
  have hroom : maxFrameLen - prepareBatchCarrierOverhead = 16777147 := rfl
  have hover : logEntryBodyOverhead = 52 := rfl
  rw [maxRequestBodyLen_eq] at h
  rw [presentEntryEncodedLen, hroom, hover]
  omega

/-- Saturation only lowers the bound of a log. -/
theorem logWireSizeBound_le (log : List PreparedEntry) :
    logWireSizeBound log ≤ (log.map entryBound).sum := by
  rw [logWireSizeBound_eq_min]
  exact min_le_left _ _

namespace Message

theorem wireSizeBound_request_le {r : Request} (h : r.body.length ≤ maxRequestBodyLen) :
    (request r).wireSizeBound ≤ maxFrameLen := by
  have hover : requestEncodeOverhead = 42 := rfl
  have hframe : maxFrameLen = 16777216 := rfl
  rw [maxRequestBodyLen_eq] at h
  refine (saturatingAdd_le _ _).trans ?_
  omega

theorem wireSizeBound_prepare_le {p : Prepare} (h : p.body.length ≤ maxRequestBodyLen) :
    (prepare p).wireSizeBound ≤ maxFrameLen := by
  have hover : prepareEncodeOverhead = 115 := rfl
  have hframe : maxFrameLen = 16777216 := rfl
  rw [maxRequestBodyLen_eq] at h
  refine (saturatingAdd_le _ _).trans ?_
  omega

theorem wireSizeBound_prepareBatch_le {m : PrepareBatch}
    (h : (m.log.map entryBound).sum ≤ maxFrameLen - prepareBatchCarrierOverhead) :
    (prepareBatch m).wireSizeBound ≤ maxFrameLen := by
  have hlog := logWireSizeBound_le m.log
  have hover : prepareBatchCarrierOverhead = 69 := rfl
  have hframe : maxFrameLen = 16777216 := rfl
  refine (saturatingAdd_le _ _).trans ?_
  omega

theorem wireSizeBound_repairBatch_le {m : RepairBatch}
    (h : (m.log.map entryBound).sum ≤ maxFrameLen - repairBatchCarrierOverhead) :
    (repairBatch m).wireSizeBound ≤ maxFrameLen := by
  have hlog := logWireSizeBound_le m.log
  have hover : repairBatchCarrierOverhead = 58 := rfl
  have hframe : maxFrameLen = 16777216 := rfl
  refine (saturatingAdd_le _ _).trans ?_
  omega

/-- The messages of a view change and of a recovery that carry a log. -/
def viewChangeLog : Message → Option (List PreparedEntry)
  | doViewChange m => some m.log
  | startView m => some m.log
  | recoveryResponse m => some m.log
  | _ => none

theorem sum_entryBound_headerOnly {log : List PreparedEntry}
    (h : ∀ e ∈ log, e.body.isRepairing = true) :
    (log.map entryBound).sum = log.length * perHeaderEntryBytes := by
  have hbound : ∀ e ∈ log, entryBound e = perHeaderEntryBytes := by
    intro e he
    have hbody := h e he
    unfold entryBound
    cases hb : e.body with
    | repairing c => rfl
    | present | reconfigure => rw [hb] at hbody; cases hbody
  rw [map_congr_left hbound, map_const', sum_replicate_nat]

theorem wireSizeBound_viewChange_le {m : Message} {log : List PreparedEntry}
    (hm : m.viewChangeLog = some log) (hlog : ∀ e ∈ log, e.body.isRepairing = true)
    (hlen : log.length ≤ maxHeaderOnlyBandDepth) : m.wireSizeBound ≤ maxFrameLen := by
  have hsum := (logWireSizeBound_le log).trans (sum_entryBound_headerOnly hlog).le
  rw [show perHeaderEntryBytes = 60 from rfl] at hsum
  have hdepth : maxHeaderOnlyBandDepth = 279618 := rfl
  have hframe : maxFrameLen = 16777216 := rfl
  have hseven : fixedFieldsBound 7 1 = 102 := by decide
  have hsix : fixedFieldsBound 6 1 = 91 := by decide
  have hadd (a : Nat) (ha : a ≤ 102) : saturatingAdd a (logWireSizeBound log) ≤ maxFrameLen := by
    refine (saturatingAdd_le _ _).trans ?_
    omega
  cases m <;> cases hm
  · exact hadd _ hseven.le
  · exact hadd _ (by omega)
  · exact hadd _ hseven.le

end Message

/-! ## What is sent -/

/-- The entries of a batch. -/
def Message.batchLog : Message → Option (List PreparedEntry)
  | .repairBatch m => some m.log
  | .prepareBatch m => some m.log
  | _ => none

/-- A batch is no longer than a window, and every entry in it carries plain bytes. -/
def Message.PlainBatch (m : Message) : Prop :=
  ∀ log ∈ m.batchLog, log.length ≤ repairWindow ∧ ∀ e ∈ log, ∃ bs, e.body = .present bs

/-- What a replica sends: a batch is plain, and when the bodies fit the message is within the
frame. -/
structure Message.Shipped (fit : Prop) (m : Message) : Prop where
  plain : m.PlainBatch
  framed : fit → m.wireSizeBound ≤ maxFrameLen

theorem Message.Shipped.prepare {fit : Prop} {p : Prepare}
    (h : fit → p.body.length ≤ maxRequestBodyLen) : (Message.prepare p).Shipped fit :=
  ⟨nofun, fun hf => wireSizeBound_prepare_le (h hf)⟩

theorem Message.Shipped.prepareBatch {fit : Prop} {m : PrepareBatch}
    (hlen : m.log.length ≤ repairWindow) (hplain : ∀ e ∈ m.log, ∃ bs, e.body = .present bs)
    (h : fit → (m.log.map entryBound).sum ≤ maxFrameLen - prepareBatchCarrierOverhead) :
    (Message.prepareBatch m).Shipped fit := by
  refine ⟨fun log hlog => ?_, fun hf => wireSizeBound_prepareBatch_le (h hf)⟩
  cases hlog
  exact ⟨hlen, hplain⟩

namespace Node

variable {S : Type}

/-- Every body of the log is at most as long as a request body may be. -/
def BodiesFit (n : Node S) : Prop :=
  ∀ op e bs, n.log.get? op = some e → e.bodyBytes = some bs → bs.length ≤ maxRequestBodyLen

/-- What carries bodies and was sent between `n` and `n'` is as it has to be. -/
def Ships (fit : Prop) (n n' : Node S) : Prop :=
  ∃ sent, n'.carriers = sent ++ n.carriers ∧ ∀ e ∈ sent, e.msg.Shipped fit

variable {fit : Prop}

namespace Ships

variable {n n' n'' : Node S}

theorem of_mute (h : n'.carriers = n.carriers) : Ships fit n n' :=
  ⟨[], h, fun _ he => absurd he not_mem_nil⟩

theorem refl (n : Node S) : Ships fit n n := of_mute rfl

theorem trans (h : Ships fit n n') (h' : Ships fit n' n'') : Ships fit n n'' := by
  obtain ⟨sent, hs, hfit⟩ := h
  obtain ⟨sent', hs', hfit'⟩ := h'
  refine ⟨sent' ++ sent, by rw [hs', hs, append_assoc], ?_⟩
  intro e he
  exact (mem_append.mp he).elim (hfit' e) (hfit e)

theorem emit (n : Node S) (r : Recipient) {m : Message} (h : m.Shipped fit) :
    Ships fit n (n.emit r m) := by
  cases hm : m.carriesBodies with
  | false => exact of_mute (carriers_emit n r m hm)
  | true =>
    have hone : (n.emit r m).carriers = n.carriers ∨ ∃ e : Outgoing,
        e.msg = m ∧ (n.emit r m).carriers = e :: n.carriers := by
      unfold Node.emit
      split
      · exact .inl rfl
      · exact .inr ⟨_, rfl, filter_cons_of_pos hm⟩
    rcases hone with hmute | ⟨e, he, hcarriers⟩
    · exact of_mute hmute
    · refine ⟨[e], hcarriers, ?_⟩
      intro e' he'
      rw [mem_singleton.mp he', he]
      exact h

end Ships

/-! ## Packing -/

theorem log_emit (n : Node S) (r : Recipient) (m : Message) : (n.emit r m).log = n.log := by
  unfold Node.emit
  split <;> rfl

/-- The open batch of a retransmission may be sent as it is, and so may each one that goes out. -/
theorem retransmit_ships (ops : List OpNumber) (running : Nat) (entries : List PreparedEntry)
    (n : Node S) (hn : fit → n.BodiesFit) (hsum : running = (entries.map entryBound).sum)
    (hroom : fit → running ≤ maxFrameLen - prepareBatchCarrierOverhead)
    (hlen : entries.length + ops.length ≤ repairWindow)
    (hplain : ∀ e ∈ entries, ∃ bs, e.body = .present bs) :
    Ships fit n (retransmit (maxFrameLen - prepareBatchCarrierOverhead) running entries ops n) := by
  induction ops generalizing running entries n with
  | nil =>
    rw [retransmit]
    split
    · exact .refl n
    · exact .emit n _ (.prepareBatch hlen hplain (hsum ▸ hroom))
  | cons op ops ih =>
    rw [length_cons] at hlen
    rw [retransmit]
    split
    · exact ih running entries n hn hsum hroom (by omega) hplain
    · rename_i e body hheld
      obtain ⟨e', hget, hbody⟩ := Option.bind_eq_some_iff.mp hheld
      obtain ⟨bs, hbs, heq⟩ := Option.map_eq_some_iff.mp hbody
      cases heq
      have hcost (hf : fit) := presentEntryEncodedLen_le (hn hf op e body hget hbs)
      have hone : ∀ p ∈ [PreparedEntry.ofBytes op e.client e.request body],
          ∃ bs, p.body = .present bs := forall_mem_singleton.mpr ⟨body, rfl⟩
      dsimp only
      split
      · -- the batch goes out, and the entry opens the next one
        have hsent : Ships fit n (n.emitPrepareBatch entries) :=
          .emit n _ (.prepareBatch ((Nat.le_add_right _ _).trans hlen) hplain (hsum ▸ hroom))
        have hkept (hf : fit) : (n.emitPrepareBatch entries).BodiesFit := by
          intro k f gs hk
          rw [emitPrepareBatch, log_emit] at hk
          exact hn hf k f gs hk
        refine hsent.trans (ih _ _ _ hkept (by simp; rfl) hcost ?_ hone)
        rw [length_singleton]
        omega
      · rename_i hfits
        apply ih _ _ n hn
        · rw [map_append, sum_append, ← hsum]
          rfl
        · -- an empty batch has used nothing yet
          intro hf
          have hcost := hcost hf
          cases entries with
          | nil =>
            rw [map_nil, sum_nil] at hsum
            omega
          | cons _ _ => simpa using hfits
        · rw [length_append, length_singleton]
          omega
        · exact forall_mem_append.mpr ⟨hplain, hone⟩

theorem retransmitPrepares_ships (n : Node S) (now : Instant) (hn : fit → n.BodiesFit) :
    Ships fit n (n.retransmitPrepares now) := by
  unfold retransmitPrepares
  split
  · exact .refl n
  · refine .trans (retransmit_ships _ 0 [] n hn rfl (fun _ => Nat.zero_le _) ?_ nofun)
      (.of_mute rfl)
    rw [length_range', length_nil, prepareRetransmitWindow, repairWindow]
    omega

/-- As many keys as the interval they lie in has places. -/
theorem length_entries_le {V : Type} {m : OrdMap Nat V} {lo hi : Nat}
    (h : ∀ k v, m.get? k = some v → lo ≤ k ∧ k ≤ hi) : m.entries.length ≤ hi + 1 - lo := by
  have hnodup : (m.entries.map Prod.fst).Nodup :=
    (pairwise_map.mpr m.sorted).imp fun hlt => ne_of_lt hlt
  have hsub : (m.entries.map Prod.fst).toFinset ⊆ Finset.Icc lo hi := by
    intro k hk
    obtain ⟨⟨j, v⟩, hmem, rfl⟩ := mem_map.mp (mem_toFinset.mp hk)
    exact Finset.mem_Icc.mpr (h j v (OrdMap.mem_entries.mp hmem))
  have hcard := Finset.card_le_card hsub
  rwa [toFinset_card_of_nodup hnodup, length_map, Nat.card_Icc] at hcard

theorem repairEntries_plain (budget running : Nat) (held : List (OpNumber × LogEntry)) :
    (repairEntries budget running held).length ≤ held.length ∧
      ∀ e ∈ repairEntries budget running held, ∃ bs, e.body = .present bs := by
  induction held generalizing running with
  | nil => exact ⟨le_refl _, fun e he => absurd he not_mem_nil⟩
  | cons p held ih =>
    obtain ⟨op, entry⟩ := p
    rw [repairEntries]
    split
    · obtain ⟨hlen, hplain⟩ := ih running
      exact ⟨hlen.trans (Nat.le_succ _), hplain⟩
    · rename_i body hbody
      dsimp only
      split
      · exact ⟨Nat.zero_le _, fun e he => absurd he not_mem_nil⟩
      · obtain ⟨hlen, hplain⟩ := ih (running + presentEntryEncodedLen body.length)
        exact ⟨Nat.succ_le_succ hlen, forall_mem_cons.mpr ⟨⟨body, rfl⟩, hplain⟩⟩

/-- The entries of a repair batch never exceed what is left of the budget. -/
theorem sum_repairEntries_le (budget : Nat) (held : List (OpNumber × LogEntry)) (running : Nat)
    (hcost : ∀ p ∈ held, ∀ bs, p.2.bodyBytes = some bs → presentEntryEncodedLen bs.length ≤ budget)
    (hroom : running ≤ budget) :
    running + ((repairEntries budget running held).map entryBound).sum ≤ budget := by
  induction held generalizing running with
  | nil => simpa [repairEntries] using hroom
  | cons p held ih =>
    obtain ⟨op, e⟩ := p
    have hrest : ∀ q ∈ held, ∀ bs, q.2.bodyBytes = some bs →
        presentEntryEncodedLen bs.length ≤ budget :=
      fun q hq => hcost q (mem_cons_of_mem _ hq)
    rw [repairEntries]
    split
    · exact ih running hrest hroom
    · rename_i body hbody
      dsimp only
      split
      · simpa using hroom
      · rename_i hfits
        have hfirst := hcost (op, e) mem_cons_self body hbody
        have hnext : running + presentEntryEncodedLen body.length ≤ budget := by
          by_cases hzero : running = 0
          · omega
          · simpa [hzero] using hfits
        have htail := ih (running + presentEntryEncodedLen body.length) hrest hnext
        have hhead : entryBound (.ofBytes op e.client e.request body) =
            presentEntryEncodedLen body.length := rfl
        rw [map_cons, sum_cons, hhead]
        omega

theorem onRequestPrepareRange_ships (n : Node S) (sender : Peer) (m : RequestPrepareRange)
    (hn : fit → n.BodiesFit) : Ships fit n (n.onRequestPrepareRange sender m) := by
  unfold onRequestPrepareRange
  split
  · exact .refl n
  · split
    · split
      · exact .refl n
      · extract_lets hi held entries
        split
        · exact .refl n
        · refine Ships.emit n _ ⟨fun log hlog => ?_, fun hf => ?_⟩
          · cases hlog
            obtain ⟨hlen, hplain⟩ :=
              repairEntries_plain (maxFrameLen - repairBatchCarrierOverhead) 0 held
            refine ⟨hlen.trans ?_, hplain⟩
            have hheld : held.length ≤ hi + 1 - m.lo := by
              apply length_entries_le
              intro k v hk
              have hin := (OrdMap.get?_filter_eq_some.mp hk).2
              simpa using hin
            have hhi : hi ≤ m.lo + repairWindow - 1 := (min_le_left _ _).trans (min_le_right _ _)
            have hwindow : repairWindow = 64 := rfl
            omega
          · apply Message.wireSizeBound_repairBatch_le
            have hheld : ∀ p ∈ held, ∀ bs, p.2.bodyBytes = some bs →
                presentEntryEncodedLen bs.length ≤ maxFrameLen - repairBatchCarrierOverhead := by
              intro p hp bs hbs
              have hget := (OrdMap.get?_filter_eq_some.mp (OrdMap.mem_entries.mp hp)).1
              have hcost := presentEntryEncodedLen_le (hn hf p.1 p.2 bs hget hbs)
              have hless : maxFrameLen - prepareBatchCarrierOverhead
                  ≤ maxFrameLen - repairBatchCarrierOverhead := by decide
              omega
            have hsum := sum_repairEntries_le _ held 0 hheld (Nat.zero_le _)
            rwa [Nat.zero_add] at hsum
    · exact .refl n

theorem onRequestPrepare_ships (n : Node S) (sender : Peer) (m : RequestPrepare)
    (hn : fit → n.BodiesFit) : Ships fit n (n.onRequestPrepare sender m) := by
  unfold onRequestPrepare
  split
  · exact .refl n
  · split
    · split
      · exact .refl n
      · split
        · split
          · unfold withLocalSlot
            split
            · exact .of_mute (carriers_emit n _ _ rfl)
            · exact .of_mute rfl
          · exact .refl n
        · rename_i e hget
          split
          · exact .refl n
          · rename_i body hbody
            split
            · exact .refl n
            · exact .emit n _ (.prepare fun hf => hn hf m.op e body hget hbody)
    · exact .refl n

/-! ## Minting -/

/-- The log after an op is minted holds the bytes that were sent. -/
theorem log_mintOp (n : Node S) (now : Instant) (client : ClientId) (request : RequestNumber)
    (bytes : Bytes) (body : Body) :
    (n.mintOp now client request bytes body).log.get? (n.op + 1) =
      some ⟨client, request, body⟩ := by
  have harm (m : Node S) : (m.armTimers now).log = m.log := rfl
  rw [mintOp, harm, log_emit]
  simp

theorem mintOp_ships (n : Node S) (now : Instant) (client : ClientId) (request : RequestNumber)
    {bytes : Bytes} {body : Body} (hbody : body.bodyBytes = some bytes)
    (hn : fit → (n.mintOp now client request bytes body).BodiesFit) :
    Ships fit n (n.mintOp now client request bytes body) := by
  have hlen (hf : fit) : bytes.length ≤ maxRequestBodyLen :=
    hn hf (n.op + 1) ⟨client, request, body⟩ bytes
      (log_mintOp n now client request bytes body) hbody
  have harm (m : Node S) : Ships fit m (m.armTimers now) := .of_mute rfl
  have hop (m : Node S) (op : OpNumber) : Ships fit m { m with op := op } := .of_mute rfl
  have hlog (m : Node S) (log : OrdMap Nat LogEntry) (inflight : OrdMap Nat Inflight)
      (appending : OpSet) :
      Ships fit m { m with log := log, inflight := inflight, appending := appending } :=
    .of_mute rfl
  have happend (m : Node S) (op : OpNumber) (header : Header) (kind : Pending) :
      Ships fit m (m.submitOrDeferAppend op header bytes kind) :=
    .of_mute (congrArg Ground.carriers (ground_submitAppendAs m op header bytes kind))
  unfold mintOp
  extract_lets op n1 n2
  have h2 : Ships fit n n2 := ((hop n op).trans (happend _ _ _ _)).trans (hlog n1 _ _ _)
  exact (h2.trans (.emit n2 _ (.prepare hlen))).trans (harm _)

/-- A request is dropped, answered again, or minted. -/
theorem onRequest_cases (n : Node S) (now : Instant) (r : Request) :
    n.onRequest now r = n ∨
      (∃ answered body, n.onRequest now r = n.emit (.toPeer (.client r.client))
        (.reply ⟨n.view, r.client, answered, body⟩)) ∨
      ∃ clients, n.onRequest now r =
        { n with clients := clients }.mintOp now r.client r.request r.body (.present r.body) := by
  unfold onRequest admitRequest
  dsimp only
  repeat' split
  all_goals first
    | exact .inl rfl
    | exact .inr (.inl ⟨_, _, rfl⟩)
    | exact .inr (.inr ⟨_, rfl⟩)

theorem onRequest_ships (n : Node S) (now : Instant) (r : Request)
    (hn : fit → (n.onRequest now r).BodiesFit) : Ships fit n (n.onRequest now r) := by
  rcases onRequest_cases n now r with h | ⟨answered, body, h⟩ | ⟨clients, h⟩
  · rw [h]
    exact .refl n
  · rw [h]
    exact .of_mute (carriers_emit n _ _ rfl)
  · rw [h] at hn ⊢
    exact .trans (.of_mute rfl) (mintOp_ships _ now _ _ rfl hn)

theorem mintReconfigure_ships (n : Node S) (now : Instant) (successor : Membership)
    (hn : fit → (n.mintReconfigure now successor).BodiesFit) :
    Ships fit n (n.mintReconfigure now successor) := by
  unfold mintReconfigure at hn ⊢
  exact (mintOp_ships n now _ _ rfl hn).trans (.of_mute rfl)

/-- A proposal is refused, waits for a proof, or is minted. -/
theorem proposeMembership_cases (n : Node S) (now : Instant) (delta : SingleVoterDelta)
    (accept : Bool) :
    (n.proposeMembership now delta accept).1 = n ∨
      (∃ target, (n.proposeMembership now delta accept).1 = n.solicitLearnerProof target) ∨
      ∃ (m : Node S) (successor : Membership), m.carriers = n.carriers ∧
        (n.proposeMembership now delta accept).1 = m.mintReconfigure now successor := by
  unfold proposeMembership
  split
  · exact .inl rfl
  · split
    · exact .inl rfl
    · split
      · exact .inl rfl
      · split
        · exact .inl rfl
        · exact .inl rfl
        · exact .inl rfl
        · exact .inl rfl
        · exact .inl rfl
        all_goals
          split
          · exact .inl rfl
          · extract_lets fPred fSucc
            split
            · exact .inl rfl
            · split
              · split
                · exact .inr (.inr ⟨{ n with learnerProof := none }, _, rfl, rfl⟩)
                · exact .inr (.inl ⟨_, rfl⟩)
              · exact .inr (.inr ⟨n, _, rfl, rfl⟩)

theorem proposeMembership_ships [StateMachine S] (n : Node S) (now : Instant)
    (delta : SingleVoterDelta) (accept : Bool)
    (hn : fit → (n.proposeMembership now delta accept).1.BodiesFit) :
    Ships fit n (n.proposeMembership now delta accept).1 := by
  rcases proposeMembership_cases n now delta accept with h | ⟨target, h⟩ | ⟨m, successor, hm, h⟩
  · rw [h]
    exact .refl n
  · rw [h]
    exact .of_mute (Acts.solicitLearnerProof (K := .all) n target).mute
  · rw [h] at hn ⊢
    exact .trans (.of_mute hm) (mintReconfigure_ships m now successor hn)

/-! ## Timers -/

/-- A licence under which no entry appears in the log. -/
def shrinking : Licence := ⟨False, False, False, False, False⟩

theorem tending_log : Tending fun n n' : Node S => n'.log = n.log where
  refl _ := rfl
  trans h h' := h'.trans h
  submit n op header body kind :=
    congrArg Holding.log (tending_holding.submit n op header body kind)
  edit _ _ _ _ := rfl

variable [StateMachine S]

/-- Without a licence to insert, a move leaves no entry in the log that was not there. -/
theorem Move.log_of_shrinking {n n' : Node S} (h : Move shrinking n n') {op : OpNumber}
    {e : LogEntry} (he : n'.log.get? op = some e) : n.log.get? op = some e := by
  have keep (hlog : n'.log = n.log) : n.log.get? op = some e := hlog ▸ he
  cases h with
  | quiet h | mint h | post _ h | restore _ _ _ _ h | status _ _ h | clear h | retire _ h
  | settle _ h | checkpoint _ _ h =>
    exact keep (congrArg Face.log h)
  | @log _ log hlog h =>
    have hface : n'.log = log := congrArg Face.log h
    exact (hlog op e (hface ▸ he)).resolve_right id
  | append k header body kind _ _ => exact keep (tending_log.submit n k header body kind)
  | release k => exact keep (tending_log.releaseDeferredAppend n k)
  | truncate above =>
    refine keep ((tending_log.absorbWalCancellations _ _).trans ?_)
    unfold Node.truncateWal
    split <;> rfl
  | prune below =>
    refine keep ((tending_log.absorbWalCancellations _ _).trans ?_)
    unfold Node.pruneWal
    split <;> rfl
  | gc floor _ =>
    refine keep ((tending_log.absorbWalCancellations _ _).trans
      ((tending_log.dropSubsumedAppends _ _).trans ?_))
    unfold Node.pruneWal
    split <;> rfl
  | nack gap => exact keep rfl

theorem BodiesFit.of_shrinking {n n' : Node S} (hn : n.BodiesFit) (h : Moves shrinking n n') :
    n'.BodiesFit :=
  h.invariant (P := BodiesFit) (fun _ _ hm hn op e bs he => hn op e bs (hm.log_of_shrinking he)) hn

theorem handleTimeout_ships (n : Node S) (now : Instant) (hn : fit → n.BodiesFit) :
    Ships fit n (n.handleTimeout now) := by
  rcases Retransmits.handleTimeout (K := .all) trivial n now with h | ⟨m, hm, h⟩
  · exact .of_mute h.mute
  · have hfit (hf : fit) : m.BodiesFit := (hn hf).of_shrinking (hm shrinking).moves
    exact ((Ships.of_mute (hm shrinking).mute).trans (retransmitPrepares_ships m now hfit)).trans
      (.of_mute h.mute)

/-! ## One step -/

theorem handleMessage_ships (n : Node S) (now : Instant) (sender : Peer) (msg : Message)
    (hn : fit → (n.handleMessage now sender msg).BodiesFit) :
    Ships fit n (n.handleMessage now sender msg) := by
  rcases Acts.handleMessage_split (K := .all) trivial (fun _ => trivial) n now sender msg
    fun _ => trivial with h | ⟨m, h, hawake, heq⟩
  · exact .of_mute h.mute
  · rw [heq] at hn ⊢
    refine .trans (.of_mute h.mute) ?_
    -- serving a peer leaves the log as it is
    have hserved {m' : Node S} (hlog : m'.log = m.log) (hm' : fit → m'.BodiesFit) (hf : fit) :
        m.BodiesFit := by
      have hfit := hm' hf
      unfold BodiesFit at hfit ⊢
      rwa [hlog] at hfit
    cases msg with
    | request r => exact onRequest_ships m now r hn
    | requestPrepare q =>
      refine onRequestPrepare_ships m sender q (hserved ?_ hn)
      show (m.onRequestPrepare sender q).log = m.log
      unfold onRequestPrepare withLocalSlot
      repeat' split
      all_goals first | rfl | exact log_emit m _ _
    | requestPrepareRange q =>
      refine onRequestPrepareRange_ships m sender q (hserved ?_ hn)
      show (m.onRequestPrepareRange sender q).log = m.log
      unfold onRequestPrepareRange
      dsimp only
      repeat' split
      all_goals first | rfl | exact log_emit m _ _
    | _ =>
      exact .of_mute
        (Acts.onActiveMessage (K := .all) trivial m now sender _ rfl (fun _ => trivial) hawake).mute

theorem step_ships {boot : Boot S} {n n' : Node S} {i : Input S} (h : n.step boot i = some n')
    (hn : fit → n.BodiesFit) (hn' : fit → n'.BodiesFit) : Ships fit n n' := by
  have hreboot {s : Storage} {lane : List BlockJob} {nonce : Nat}
      (h : n.reboot boot s lane nonce = some n') : Ships fit n n' := by
    obtain ⟨_, hacts⟩ := Acts.reboot (K := .all) trivial h
    exact .of_mute hacts.mute
  have hhandle (h : (if n.panicked then none else n.handle i) = some n') : Ships fit n n' := by
    obtain ⟨-, h⟩ := Option.ite_none_left_eq_some.mp h
    cases hserves : i.serves with
    | false =>
      have hacts := handle_acts (K := .all) trivial trivial h hserves (fun _ => trivial)
        (fun _ => trivial) fun _ => trivial
      exact .of_mute hacts.mute
    | true =>
      cases i with
      | message now sender msg =>
        obtain ⟨-, h⟩ := Option.ite_none_left_eq_some.mp h
        cases h
        exact handleMessage_ships n now sender msg hn'
      | timeout now =>
        cases h
        exact handleTimeout_ships n now hn
      | proposeMembership now delta accept =>
        cases h
        exact proposeMembership_ships n now delta accept hn'
      | _ => cases hserves
  cases i with
  | rot | cancels =>
    cases h
    exact .of_mute rfl
  | crash | restart => exact hreboot h
  | _ => exact hhandle h

end Node

/-! ## The router -/

namespace PeerRouter

variable {R : Type}

/-- The codec the transport is run with. -/
def wireCodec (decode : Bytes → Decoded) : WireCodec :=
  ⟨encodeMessage, decode, Message.wireSizeBound⟩

theorem oversizedDropped_fanOut (io : RecordIo R) (framed : Bytes) (t : PeerRouter R)
    (targets : List ConnId) :
    (t.fanOut io framed targets).2.oversizedDropped = t.oversizedDropped := by
  have hsend (t : PeerRouter R) (id : ConnId) :
      (t.sendTo io framed id).2.oversizedDropped = t.oversizedDropped := by
    unfold sendTo
    repeat' split
    all_goals rfl
  have hfold {f : Nat × PeerRouter R → ConnId → Nat × PeerRouter R}
      (hf : ∀ a id, (f a id).2.oversizedDropped = a.2.oversizedDropped) (a : Nat × PeerRouter R)
      (targets : List ConnId) : (targets.foldl f a).2.oversizedDropped = a.2.oversizedDropped := by
    induction targets generalizing a with
    | nil => rfl
    | cons id targets ih => exact (ih _).trans (hf a id)
  unfold fanOut
  refine hfold ?_ (0, t) targets
  exact fun a id => hsend a.2 id

theorem oversizedDropped_reapClosed (t : PeerRouter R) :
    t.reapClosed.oversizedDropped = t.oversizedDropped := by
  have hreap (t : PeerRouter R) (id : ConnId) :
      (t.reap id).oversizedDropped = t.oversizedDropped := by
    unfold reap promote
    dsimp only
    repeat' split
    all_goals rfl
  have hfold (ids : List ConnId) (t : PeerRouter R) :
      (ids.foldl reap t).oversizedDropped = t.oversizedDropped := by
    induction ids generalizing t with
    | nil => rfl
    | cons id ids ih => exact (ih _).trans (hreap t id)
  exact hfold t.ids t

theorem oversizedDropped_route (io : RecordIo R) (decode : Bytes → Decoded) (t : PeerRouter R)
    (recipient : Recipient) {msg : Message} (selfId : ReplicaId)
    (h : msg.wireSizeBound ≤ maxFrameLen) :
    (t.route io (wireCodec decode) recipient msg selfId).2.oversizedDropped =
      t.oversizedDropped := by
  have hmax : usizeMax = 18446744073709551615 := rfl
  have hframe : maxFrameLen = 16777216 := rfl
  have hvar : msg.variableLen < 2 ^ 32 := by
    have := Message.variableLen_le (m := msg) (by omega)
    omega
  have hlen : (encodeMessage msg).length ≤ maxFrameLen :=
    (Message.length_encodeMessage_le hvar).1.trans h
  unfold route wireCodec
  dsimp only
  rw [if_neg (by omega), if_neg (by omega)]
  split
  · exact (oversizedDropped_reapClosed _).trans (oversizedDropped_fanOut io _ t _)
  · exact oversizedDropped_fanOut io _ t _

end PeerRouter

/-- A message the router takes: its bound is within a frame, and no router counts it as
oversized. -/
def Message.Routable (m : Message) : Prop :=
  m.wireSizeBound ≤ maxFrameLen ∧
    ∀ (R : Type) (io : RecordIo R) (decode : Bytes → Decoded) (t : PeerRouter R)
      (recipient : Recipient) (selfId : ReplicaId),
      (t.route io (PeerRouter.wireCodec decode) recipient m selfId).2.oversizedDropped
        = t.oversizedDropped

theorem Message.Routable.of_le {m : Message} (h : m.wireSizeBound ≤ maxFrameLen) : m.Routable :=
  ⟨h, fun _ io decode t recipient selfId =>
    PeerRouter.oversizedDropped_route io decode t recipient selfId h⟩

/-- The bound of a message is at least its encoded length and does not saturate, whatever its
fields are, as long as those of variable length have less than `2 ^ 32` bytes together. What a
step sends that carries bodies is routable when the bodies of the log are no longer than a
request's may be, before the step and after it; so is a request with such a body, and so are the
messages of a view change with as many header-only entries as a band may have. -/
theorem frame_budget {S : Type} [StateMachine S] :
    (∀ m : Message, m.variableLen < 2 ^ 32 →
      (encodeMessage m).length ≤ m.wireSizeBound ∧ m.wireSizeBound < usizeMax) ∧
    (∀ (boot : Boot S) (n n' : Node S) (i : Input S), n.step boot i = some n' →
      n.BodiesFit → n'.BodiesFit → ∃ sent, n'.carriers = sent ++ n.carriers ∧
        ∀ e ∈ sent, e.msg.Routable) ∧
    (∀ r : Request, r.body.length ≤ maxRequestBodyLen → (Message.request r).Routable) ∧
    ∀ (m : Message) (log : List PreparedEntry), m.viewChangeLog = some log →
      (∀ e ∈ log, e.body.isRepairing = true) → log.length ≤ maxHeaderOnlyBandDepth →
      m.Routable := by
  refine ⟨fun m hm => Message.length_encodeMessage_le hm, ?_, ?_, ?_⟩
  · intro boot n n' i h hn hn'
    obtain ⟨sent, hsent, hshipped⟩ : Node.Ships True n n' :=
      Node.step_ships h (fun _ => hn) fun _ => hn'
    exact ⟨sent, hsent, fun e he => .of_le ((hshipped e he).framed trivial)⟩
  · intro r hr
    exact .of_le (Message.wireSizeBound_request_le hr)
  · intro m log hm hlog hlen
    exact .of_le (Message.wireSizeBound_viewChange_le hm hlog hlen)

/-- A commit of five small numbers takes 28 of the 69 bytes of its bound. The request and its
prepare are routable, and so is a vote for a view whose log is one header. -/
theorem frame_budget_leaderPrepared :
    (encodeMessage (.commit ⟨1, 2, 3, 4, 5⟩)).length = 28 ∧
    28 ≤ (Message.commit ⟨1, 2, 3, 4, 5⟩).wireSizeBound ∧
    Node.leaderPrepared.carriers.length = 1 ∧
    (∀ e ∈ Node.leaderPrepared.carriers, e.msg.Routable) ∧
    (Message.request ⟨3, 1, [9]⟩).Routable ∧
    (Message.doViewChange ⟨1, 0, 1, 0, 0, 0, 5, 1, [⟨1, 3, 1, .repairing 8⟩]⟩).Routable := by
  obtain ⟨hbound, hstep, hrequest, hview⟩ := frame_budget (S := Tally)
  have hlen : (encodeMessage (.commit ⟨1, 2, 3, 4, 5⟩)).length = 28 := by decide +kernel
  have hempty : Node.leaderStart.log = OrdMap.empty := by decide +kernel
  have hlog : Node.leaderPrepared.log = OrdMap.empty.insert 1 ⟨3, 1, .present [9]⟩ := by
    decide +kernel
  have hfit : Node.leaderPrepared.BodiesFit := by
    intro op e bs he hbs
    rw [hlog, OrdMap.get?_insert] at he
    split at he <;> cases he
    cases hbs
    decide
  obtain ⟨sent, hsent, hroutable⟩ := hstep Node.leaderBoot Node.leaderStart Node.leaderPrepared _
    (Option.some_get _).symm (by simp [Node.BodiesFit, hempty]) hfit
  have hstart : Node.leaderStart.carriers = [] := by decide +kernel
  rw [hstart, append_nil] at hsent
  refine ⟨hlen, hlen ▸ (hbound _ (by decide)).1, by decide +kernel, ?_, hrequest _ (by decide),
    hview _ _ rfl (by decide) (by decide)⟩
  rwa [hsent]

end Viewstamp
