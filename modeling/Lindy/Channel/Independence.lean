import Lindy.Channel.ForceClose
import Lindy.Channel.Steps
import Lindy.Signing

/-! # Channels do not disturb each other

Keys, descriptors and publishing keys are shared by all channels with a peer, and tasks write
back copies they captured long ago. Still the operations on different channels can be swapped,
and what becomes of a channel is settled by the operations on it.

The nonce generator is shared too: in another order the same operation signs with another draw.
What was signed then differs in its signatures, which are as valid.
-/

namespace Lindy

open Bitcoin Machine Op

variable {c : Crates}

/-- A PSBT of this transaction to which no input script was added. -/
structure Unscripted (tx : Transaction) (psbt : c.Psbt) : Prop where
  same : psbt.unsignedTx = tx
  inputs : psbt.inputs.length = tx.input.length
  bare : ∀ input ∈ psbt.inputs, input.finalScriptSig = none

namespace Unscripted

variable {tx : Transaction} {psbt psbt' : c.Psbt}

theorem ofUnsigned : Unscripted tx (.ofUnsigned tx : c.Psbt) where
  same := rfl
  inputs := by simp [Psbt.ofUnsigned]
  bare := by simp [Psbt.ofUnsigned, PsbtInput.default]

theorem update (h : Unscripted tx psbt) {change : PsbtInput c.PublicKey → PsbtInput c.PublicKey}
    (updated : psbt.updateInput change = some psbt')
    (keeps : ∀ input, (change input).finalScriptSig = input.finalScriptSig) :
    Unscripted tx psbt' := by
  unfold Psbt.updateInput at updated
  split at updated
  · rename_i input rest there
    obtain rfl := Option.some.inj updated
    have length := h.inputs
    have bare := h.bare
    rw [there] at length bare
    refine ⟨h.same, length, ?_⟩
    simp only [List.forall_mem_cons] at bare ⊢
    exact ⟨(keeps input).trans bare.1, bare.2⟩
  · cases updated

/-- Extracting it gives the transaction with its witnesses in. -/
theorem extracted (h : Unscripted tx psbt) : psbt.extracted.withoutWitness =
    { tx with
      input := tx.input.map fun input => { input with scriptSig := [], witness := [] } } := by
  obtain ⟨rfl, inputs, bare⟩ := h
  have plain := (Psbt.finalInput_bare_iff psbt.unsignedTx.input psbt.inputs inputs).mpr
    fun input member => by rw [bare input member]; rfl
  simp only [Psbt.extracted_full inputs, Transaction.withoutWitness, plain]

end Unscripted

namespace ChannelManager

variable {m : ChannelManager c} {id : ChannelId} {peer : c.PeerId} {index : UInt32}
  {commit : CommitState} {commitSig : c.EncryptedSignature} {role : Bool}

theorem addSignature_unscripted {tx : Transaction} {psbt psbt' : c.Psbt} {sighash : Bytes}
    {key : c.PublicKey} {signature : c.Signature} (h : Unscripted tx psbt)
    (added : addSignature sighash psbt key signature = some psbt') : Unscripted tx psbt' := by
  unfold addSignature at added
  split at added
  · exact h.update added fun _ => rfl
  · cases added

theorem finalise_unscripted {tx : Transaction} {psbt psbt' : c.Psbt} {descriptor : c.Descriptor}
    (h : Unscripted tx psbt) (finalised : finalise descriptor psbt = some psbt') :
    Unscripted tx psbt' := by
  unfold finalise at finalised
  split at finalised
  · exact h.update finalised fun _ => rfl
  · exact Option.some.inj finalised ▸ h

/-- Witness apart, the close transaction is the state transaction. -/
theorem closeTx_withoutWitness (psbts : c.LawfulPsbt) {entropy : c.Entropy} {tx : Transaction}
    (made : m.closeTx id peer index commit commitSig role entropy = some tx) :
    m.stateTx id index peer commit role = some tx.withoutWitness := by
  simp only [closeTx, statePsbt, Option.bind_eq_bind, Option.bind_eq_some_iff,
    Option.some.injEq] at made
  obtain ⟨_, -, _, ⟨unspent, spends, unsigned, from_, _, -, _, -, updated⟩, _, -, _, -, _, -, _,
    added, _, added', _, -, final, finalised, rfl⟩ := made
  have outputs := spends
  simp only [stateTx, Option.bind_eq_bind, Option.bind_eq_some_iff, Option.some.injEq] at outputs
  obtain ⟨_, -, outputs, -, rfl⟩ := outputs
  have plain : c.fromUnsignedTx (spending id outputs) = some (.ofUnsigned (spending id outputs)) :=
    psbts.fromUnsigned _ (by simp [spending])
  obtain rfl := Option.some.inj (plain.symm.trans from_)
  have start := Unscripted.ofUnsigned.update updated fun _ => rfl
  have signed := addSignature_unscripted (addSignature_unscripted start added) added'
  rw [spends, psbts.extract, (finalise_unscripted signed finalised).extracted]
  rfl

end ChannelManager

/-- Two close transactions of a live channel that differ in their witnesses at most, and both
    close the channel. -/
structure ClosesAlike (m : ChannelManager c) (channel : Channel c) (index : UInt32)
    (commit : CommitState) (tx tx' : Transaction) : Prop where
  same : tx.withoutWitness = tx'.withoutWitness
  closes : ClosesWith m channel index commit tx
  closes' : ClosesWith m channel index commit tx'

/-- Records that are the same up to the signatures of a close transaction. -/
inductive RecordsAlike (m : ChannelManager c) : Option (Channel c) → Option (Channel c) → Prop where
  | same (record) : RecordsAlike m record record
  | closed {channel index commit commitSig tx tx'} :
      channel.state = .live index commit commitSig →
      ClosesAlike m channel index commit tx tx' →
      RecordsAlike m (some { channel with state := .closed tx })
        (some { channel with state := .closed tx' })

/-- Replies that are the same up to the signatures in them. -/
inductive RepliesAlike (m : ChannelManager c) : Except (Failure c) (Answer c) →
    Except (Failure c) (Answer c) → Prop where
  | same (reply) : RepliesAlike m reply reply
  /-- The same message signed with the same keys. -/
  | ack (id secretKey publishingKey sighash entropy entropy') :
      RepliesAlike m
        (.ok (.ack ⟨id, c.encryptedSign secretKey publishingKey sighash entropy⟩))
        (.ok (.ack ⟨id, c.encryptedSign secretKey publishingKey sighash entropy'⟩))
  | closed {channel index commit tx tx'} : ClosesAlike m channel index commit tx tx' →
      RepliesAlike m (.ok (.closed tx)) (.ok (.closed tx'))

/-- The same operation with another draw. -/
inductive ChannelStep.Redraws : ChannelStep c → ChannelStep c → Prop where
  | same (step) : Redraws step step
  | recvNewChannel (peer channel entropy entropy') :
      Redraws (.recvNewChannel peer channel entropy) (.recvNewChannel peer channel entropy')
  | forceClose (channelId entropy entropy') :
      Redraws (.forceClose channelId entropy) (.forceClose channelId entropy')

/-- Alike replies succeed or fail alike. -/
theorem RepliesAlike.success {m : ChannelManager c} {r r' : Except (Failure c) (Answer c)}
    (alike : RepliesAlike m r r') : r.toBool = r'.toBool := by
  cases alike <;> rfl

/-- Whatever is drawn, `force_close_channel` fails with the same error or closes the channel. -/
theorem closeChannel_draws (adaptors : c.LawfulAdaptor) (ecdsa : c.LawfulEcdsa)
    (miniscripts : c.LawfulMiniscript) (psbts : c.LawfulPsbt) {m : ChannelManager c}
    {s : NodeState c} (good : s.WellFormed m) (id : ChannelId) :
    (∃ failure, ∀ entropy u, u.db = s.db → m.closeChannel id entropy u = .error failure u) ∨
    ∃ channel index commit commitSig stateTx, channel.id = id ∧
      channel.state = .live index commit commitSig ∧
      ∀ entropy, ∃ tx, tx.withoutWitness = stateTx ∧ ClosesWith m channel index commit tx ∧
        ∀ u, u.db = s.db → m.closeChannel id entropy u =
          .ok ({ channel with state := .closed tx }, tx) u := by
  cases found : s.db.getChannel id with
  | none =>
      refine .inl ⟨.anyhow "channel does not exist", fun entropy u same => ?_⟩
      rw [ChannelManager.closeChannel, bind_of_ok (get_apply u), same, found]
      rfl
  | some channel =>
      cases live : channel.state with
      | live index commit commitSig =>
          right
          obtain ⟨rfl, held⟩ := good.stored found
          obtain ⟨rfl, fundTx, committed⟩ := held.live_committed live
          have closes := committed.closeTx adaptors ecdsa miniscripts psbts
          obtain ⟨stateTx, spends⟩ : ∃ stateTx, m.stateTx channel.id 0 channel.peerId commit
              channel.iAmInitiator = some stateTx := by
            obtain ⟨_, _, _, _, _, _, -, hash, -, -⟩ := committed.verified
            obtain ⟨_, _, _, made, -⟩ := ChannelManager.stateSighash_eq_some hash
            rw [committed.initiator]
            exact ⟨_, made⟩
          refine ⟨channel, 0, commit, commitSig, stateTx, rfl, live, fun entropy => ?_⟩
          obtain ⟨tx, made, closed, -⟩ := closes entropy
          have unsigned := (ChannelManager.closeTx_withoutWitness psbts made).symm.trans spends
          refine ⟨tx, Option.some.inj unsigned, closed, fun u same => ?_⟩
          refine m.closeChannel_eq_ok.mpr ⟨rfl, channel, 0, commit, commitSig, ?_, live, made, rfl⟩
          rw [same, found]
      | _ =>
          refine .inl ⟨.anyhow "cannot force close channel that isn't live",
            fun entropy u same => ?_⟩
          rw [ChannelManager.closeChannel, bind_of_ok (get_apply u), same, found]
          simp only [live]
          rfl

/-- What an operation does on one state with two draws. -/
theorem ChannelStep.Redraws.alike (adaptors : c.LawfulAdaptor) (ecdsa : c.LawfulEcdsa)
    (miniscripts : c.LawfulMiniscript) (psbts : c.LawfulPsbt) {m : ChannelManager c}
    {s : NodeState c} (good : s.WellFormed m) {a a' : ChannelStep c} (redraws : a.Redraws a')
    {u : NodeState c} (same : u.db = s.db) :
    RepliesAlike m (resultOf (a.op m) u).1 (resultOf (a'.op m) u).1 ∧
      (resultOf (a.op m) u).2.tasks = (resultOf (a'.op m) u).2.tasks ∧
      ∀ id, RecordsAlike m ((resultOf (a.op m) u).2.db.getChannel id)
        ((resultOf (a'.op m) u).2.db.getChannel id) := by
  cases redraws with
  | same => exact ⟨.same _, rfl, fun _ => .same _⟩
  | recvNewChannel peer channel entropy entropy' =>
      rcases m.recvNewChannel_cases peer channel with fails |
        ⟨secretKey, sighash, descriptor, -, -, -, accepts⟩
      · have failed : ∀ e, (ChannelStep.recvNewChannel peer channel e).op m u = .error .panic u :=
          fun e => bind_of_error (fails e u)
        simp only [resultOf_of_error (failed _)]
        exact ⟨.same _, trivial, fun _ => .same _⟩
      · have done := resultOf_of_ok (x := (ChannelStep.recvNewChannel peer channel entropy).op m)
          (bind_of_ok (accepts entropy u))
        have done' := resultOf_of_ok (x := (ChannelStep.recvNewChannel peer channel entropy').op m)
          (bind_of_ok (accepts entropy' u))
        rw [done, done']
        exact ⟨.ack .., rfl, fun _ => .same _⟩
  | forceClose id entropy entropy' =>
      rcases closeChannel_draws adaptors ecdsa miniscripts psbts good id with ⟨failure, fails⟩ |
        ⟨channel, index, commit, commitSig, stateTx, named, live, closes⟩
      · have failed : ∀ e, (ChannelStep.forceClose id e).op m u = .error failure u := fun e =>
          bind_of_error (bind_of_error (fails e u same))
        simp only [resultOf_of_error (failed _)]
        exact ⟨.same _, trivial, fun _ => .same _⟩
      · obtain ⟨tx, plain, closed, done⟩ := closes entropy
        obtain ⟨tx', plain', closed', done'⟩ := closes entropy'
        have both : ClosesAlike m channel index commit tx tx' :=
          ⟨plain.trans plain'.symm, closed, closed'⟩
        have ran := resultOf_of_ok (x := (ChannelStep.forceClose id entropy).op m)
          (bind_of_ok (bind_of_ok (done u same)))
        have ran' := resultOf_of_ok (x := (ChannelStep.forceClose id entropy').op m)
          (bind_of_ok (bind_of_ok (done' u same)))
        rw [ran, ran']
        refine ⟨.closed both, rfl, fun other => ?_⟩
        simp only [InMemory.getChannel_insertChannel]
        split
        · exact .closed live both
        · exact .same _

theorem NodeState.WellFormed.named {m : ChannelManager c} {s : NodeState c}
    (good : s.WellFormed m) : s.Named := fun _ _ stored => (good.stored stored).1

namespace ChannelStep

/-- One step, and then another. -/
def InOrder (m : ChannelManager c) (s : NodeState c) (a b : ChannelStep c)
    (ra rb : Except (Failure c) (Answer c)) (u : NodeState c) : Prop :=
  ∃ t, a.Takes m s ra t ∧ b.Takes m t rb u

variable {m : ChannelManager c} {a b a' b' : ChannelStep c} {i j : ChannelId}
  {s t u : NodeState c} {ra rb ra' rb' : Except (Failure c) (Answer c)}

/-- Steps on different channels can be taken in either order, to the same end. -/
theorem orders (concernsA : a.id m = some i) (concernsB : b.id m = some j) (apart : i ≠ j)
    (named : s.Named) (enabledA : a.Enabled s) (enabledB : b.Enabled s) :
    ∃ ra rb u v, InOrder m s a b ra rb u ∧ InOrder m s b a rb ra v ∧ v.cells = u.cells := by
  obtain ⟨turnA, doesA⟩ := performs concernsA
  obtain ⟨turnB, doesB⟩ := performs concernsB
  obtain ⟨restA, permA⟩ := enabledA
  obtain ⟨restB, permB⟩ := enabledB
  have there := (toLocal_keyed concernsA doesA).both (toLocal_keyed concernsB doesB) apart
    (s := s.cells) (Multiset.le_iff_exists_add.mpr ⟨restA, Multiset.coe_eq_coe.mpr permA⟩)
    (Multiset.le_iff_exists_add.mpr ⟨restB, Multiset.coe_eq_coe.mpr permB⟩)
  obtain ⟨ra, rb, _, _, _, first, second, first', second'⟩ := Local.commute apart there
  obtain ⟨t, took, rfl⟩ := Takes.of_steps doesA named first
  obtain ⟨t', took', rfl⟩ := Takes.of_steps doesB named first'
  obtain ⟨u, last, rfl⟩ := Takes.of_steps doesB (took.steps doesA named).2 second
  obtain ⟨v, last', same⟩ := Takes.of_steps doesA (took'.steps doesB named).2 second'
  exact ⟨ra, rb, u, v, ⟨t, took, last⟩, ⟨t', took', last'⟩, same⟩

theorem Takes.named (concerns : a.id m = some i) (named : s.Named) (took : a.Takes m s ra t) :
    t.Named := by
  obtain ⟨turn, performs⟩ := ChannelStep.performs concerns
  exact (took.steps performs named).2

theorem InOrder.unique (concernsA : a.id m = some i) (concernsB : b.id m = some j)
    (named : s.Named) {v : NodeState c} (first : InOrder m s a b ra rb u)
    (second : InOrder m s a b ra' rb' v) : ra = ra' ∧ rb = rb' ∧ u.cells = v.cells := by
  obtain ⟨t, took, last⟩ := first
  obtain ⟨t', took', last'⟩ := second
  obtain ⟨rfl, same⟩ := took.unique concernsA named rfl took'
  obtain ⟨rfl, ends⟩ := last.unique concernsB (took.named concernsA named) same.symm last'
  exact ⟨rfl, rfl, ends⟩

/-- A step does on a channel what it would have done before a step on another channel. -/
theorem InOrder.second (concernsA : a.id m = some i) (concernsB : b.id m = some j)
    (apart : i ≠ j) (named : s.Named) (enabled : b.Enabled s) (both : InOrder m s a b ra rb u) :
    ∃ t v, a.Takes m s ra t ∧ b.Takes m s rb v ∧
      u.db.getChannel j = v.db.getChannel j ∧
      (∀ k ≠ j, u.db.getChannel k = t.db.getChannel k) ∧
      u.cells.tasks + s.cells.tasks = t.cells.tasks + v.cells.tasks := by
  obtain ⟨t, took, last⟩ := both
  obtain ⟨turnA, doesA⟩ := performs concernsA
  obtain ⟨turnB, doesB⟩ := performs concernsB
  have keyedB := toLocal_keyed concernsB doesB
  obtain ⟨stepsA, namedT⟩ := took.steps doesA named
  have stepsB := (last.steps doesB namedT).1
  -- the record of `j` is the one `b` would have found at the start
  have unseen := stepsA.elsewhere (toLocal_keyed concernsA doesA) apart
  obtain ⟨rest, perm⟩ := enabled
  have early : b.Takes m s _ _ := ⟨rest, perm, rfl⟩
  have stepsE := (early.steps doesB named).1
  obtain ⟨w, again, same⟩ := stepsE.here keyedB unseen
  obtain ⟨rfl, rfl⟩ := stepsB.unique again
  refine ⟨t, _, took, early, (Prod.mk.inj same).1, fun k other => ?_, ?_⟩
  · exact (Prod.mk.inj (stepsB.elsewhere keyedB (Ne.symm other))).1
  · exact stepsB.tasks_add stepsE (Prod.mk.inj unseen).1

theorem Redraws.id (redraws : a.Redraws a') : a'.id m = a.id m := by cases redraws <;> rfl

theorem Redraws.ends (redraws : a.Redraws a') : a'.ends = a.ends := by cases redraws <;> rfl

theorem Redraws.enabled (redraws : a.Redraws a') (enabled : a.Enabled s) : a'.Enabled s := by
  rw [Enabled, redraws.ends]
  exact enabled

section Alike

variable (adaptors : c.LawfulAdaptor) (ecdsa : c.LawfulEcdsa) (miniscripts : c.LawfulMiniscript)
  (psbts : c.LawfulPsbt)

include adaptors ecdsa miniscripts psbts

/-- One step taken with two draws. -/
theorem Redraws.takes (good : s.WellFormed m) (redraws : a.Redraws a')
    (concerns : a.id m = some i) {t' : NodeState c} (took : a.Takes m s ra t)
    (took' : a'.Takes m s ra' t') : RepliesAlike m ra ra' ∧ t.cells.tasks = t'.cells.tasks ∧
      ∀ k, RecordsAlike m (t.db.getChannel k) (t'.db.getChannel k) := by
  obtain ⟨rest, perm, run⟩ := took
  obtain ⟨replies, tasks, records⟩ := redraws.alike adaptors ecdsa miniscripts psbts good
    (u := { s with tasks := rest }) rfl
  obtain ⟨q, x, ran⟩ : ∃ q x, resultOf (a'.op m) { s with tasks := rest } = (q, x) :=
    ⟨_, _, rfl⟩
  rw [run, ran] at replies tasks
  simp only [run, ran] at records
  have other : a'.Takes m s q x := ⟨rest, redraws.ends ▸ perm, ran⟩
  obtain ⟨rfl, cells⟩ := other.unique (redraws.id.trans concerns) good.named rfl took'
  have stored : ∀ k, x.db.getChannel k = t'.db.getChannel k :=
    congrFun (congrArg Cells.records cells)
  refine ⟨replies, ?_, fun k => stored k ▸ records k⟩
  rw [← cells]
  exact Multiset.coe_eq_coe.mpr (.of_eq tasks)

/-- In another order, with other draws, everything ends alike. -/
theorem InOrder.alike (good : s.WellFormed m) (concernsA : a.id m = some i)
    (concernsB : b.id m = some j) (apart : i ≠ j) (enabledA : a.Enabled s)
    (enabledB : b.Enabled s) (redrawsA : a.Redraws a') (redrawsB : b.Redraws b')
    {v : NodeState c} (first : InOrder m s a b ra rb u) (second : InOrder m s b' a' rb' ra' v) :
    RepliesAlike m ra ra' ∧ RepliesAlike m rb rb' ∧
      (∀ k, RecordsAlike m (u.db.getChannel k) (v.db.getChannel k)) ∧ u.tasks.Perm v.tasks := by
  have named := good.named
  have concernsA' := (redrawsA.id (m := m)).trans concernsA
  have concernsB' := (redrawsB.id (m := m)).trans concernsB
  -- the second run is swapped, so that both take the steps in one order
  obtain ⟨qa, qb, w, v', swapped, inOrder, same⟩ := orders concernsA' concernsB' apart named
    (redrawsA.enabled enabledA) (redrawsB.enabled enabledB)
  obtain ⟨rfl, rfl, cells⟩ := second.unique concernsB' concernsA' named inOrder
  obtain ⟨t, x, tookA, tookB, atJ, others, tasks⟩ :=
    first.second concernsA concernsB apart named enabledB
  obtain ⟨t', x', tookA', tookB', atJ', others', tasks'⟩ :=
    swapped.second concernsA' concernsB' apart named (redrawsB.enabled enabledB)
  obtain ⟨repliesA, tasksA, recordsA⟩ := redrawsA.takes adaptors ecdsa miniscripts psbts good
    concernsA tookA tookA'
  obtain ⟨repliesB, tasksB, recordsB⟩ := redrawsB.takes adaptors ecdsa miniscripts psbts good
    concernsB tookB tookB'
  have ended : v.cells = w.cells := cells.trans same
  have stored : ∀ k, v.db.getChannel k = w.db.getChannel k :=
    congrFun (congrArg Cells.records ended)
  refine ⟨repliesA, repliesB, fun k => ?_, ?_⟩
  · rw [stored k]
    by_cases here : k = j
    · subst here
      rw [atJ, atJ']
      exact recordsB k
    · rw [others k here, others' k here]
      exact recordsA k
  · rw [tasksA, tasksB, ← tasks'] at tasks
    have left : u.cells.tasks = w.cells.tasks := add_right_cancel tasks
    exact Multiset.coe_eq_coe.mp (left.trans (congrArg Cells.tasks ended).symm)

end Alike

/-- The runs of the manager from a state, each step with its result. -/
abbrev Path (m : ChannelManager c) (s : NodeState c)
    (ts : List (Transition (NodeState c) (ChannelStep c × Except (Failure c) (Answer c))))
    (u : NodeState c) : Prop :=
  Run (fun s label t => label.1.Takes m s label.2 t) s ts u

/-- The steps on one channel can be taken without the others, with the same results and to the
    same end for that channel. -/
theorem Path.alone (named : s.Named) (k : ChannelId) {ts} (path : Path m s ts u) :
    u.Named ∧ ∃ ts' v, Path m s ts' v ∧ v.Named ∧
      ts'.map Transition.act =
        (ts.map Transition.act).filter (fun label => label.1.id m = some k) ∧
      Local.under Task.id k v.cells = Local.under Task.id k u.cells := by
  induction path with
  | nil => exact ⟨named, [], s, .nil, named, rfl, rfl⟩
  | @snoc ts t label u path took ih =>
      obtain ⟨namedT, ts', v, alone, namedV, labels, same⟩ := ih
      cases concerns : label.1.id m with
      | none =>
          have idle := took.idle concerns
          have records : u.db = t.db := congrArg Cells.records idle
          refine ⟨by rw [NodeState.Named, records]; exact namedT, ts', v, alone, namedV, ?_, ?_⟩
          · simp [concerns, labels]
          · rw [same, idle]
      | some i =>
          obtain ⟨turn, does⟩ := performs concerns
          obtain ⟨steps, namedU⟩ := took.steps does namedT
          have keyed := toLocal_keyed concerns does
          by_cases here : i = k
          · subst here
            obtain ⟨_, again, ends⟩ := steps.here keyed same
            obtain ⟨w, took', rfl⟩ := Takes.of_steps does namedV again
            refine ⟨namedU, ts' ++ [⟨v, label, w⟩], w, alone.snoc took',
              (took'.steps does namedV).2, ?_, ends⟩
            simp [concerns, labels]
          · refine ⟨namedU, ts', v, alone, namedV, ?_, ?_⟩
            · simp [concerns, labels, here]
            · rw [same, steps.elsewhere keyed here]

end ChannelStep

/-- In every reachable state, steps on different channels can be taken in either order, with
    the same results, records and tasks, up to signatures where the draws differ; and what a
    sequence of steps does to a channel is what its steps on that channel do. -/
theorem channelsIndependent (adaptors : c.LawfulAdaptor) (ecdsa : c.LawfulEcdsa)
    (miniscripts : c.LawfulMiniscript) (psbts : c.LawfulPsbt) {n : Node c} {ts s}
    (run : n.Runs ts s) :
    (∀ (a b : ChannelStep c) i j, a.id n.manager = some i → b.id n.manager = some j → i ≠ j →
      a.Enabled s → b.Enabled s →
      (∃ ra rb u v, ChannelStep.InOrder n.manager s a b ra rb u ∧
        ChannelStep.InOrder n.manager s b a rb ra v) ∧
      (∀ ra rb u ra' rb' v, ChannelStep.InOrder n.manager s a b ra rb u →
        ChannelStep.InOrder n.manager s b a rb' ra' v →
        ra = ra' ∧ rb = rb' ∧ u.db = v.db ∧ u.tasks.Perm v.tasks) ∧
      ∀ a' b' ra rb u ra' rb' v, a.Redraws a' → b.Redraws b' →
        ChannelStep.InOrder n.manager s a b ra rb u →
        ChannelStep.InOrder n.manager s b' a' rb' ra' v →
        RepliesAlike n.manager ra ra' ∧ RepliesAlike n.manager rb rb' ∧
          (∀ k, RecordsAlike n.manager (u.db.getChannel k) (v.db.getChannel k)) ∧
          u.tasks.Perm v.tasks) ∧
    ∀ k us u, ChannelStep.Path n.manager s us u → ∃ us' v, ChannelStep.Path n.manager s us' v ∧
      us'.map Transition.act =
        (us.map Transition.act).filter (fun label => label.1.id n.manager = some k) ∧
      v.db.getChannel k = u.db.getChannel k ∧
      (v.tasks.filter fun task => task.id = k).Perm (u.tasks.filter fun task => task.id = k) := by
  have good := run.wellFormed
  constructor
  · intro a b i j concernsA concernsB apart enabledA enabledB
    obtain ⟨qa, qb, w, x, inOrder, swapped, same⟩ :=
      ChannelStep.orders concernsA concernsB apart good.named enabledA enabledB
    refine ⟨⟨qa, qb, w, x, inOrder, swapped⟩, ?_, ?_⟩
    · intro ra rb u ra' rb' v first second
      obtain ⟨rfl, rfl, ended⟩ := first.unique concernsA concernsB good.named inOrder
      obtain ⟨rfl, rfl, ended'⟩ := second.unique concernsB concernsA good.named swapped
      have cells : u.cells = v.cells := ended.trans (same.symm.trans ended'.symm)
      exact ⟨rfl, rfl, congrArg Cells.records cells,
        Multiset.coe_eq_coe.mp (congrArg Cells.tasks cells)⟩
    · intro a' b' ra rb u ra' rb' v redrawsA redrawsB first second
      exact first.alike adaptors ecdsa miniscripts psbts good concernsA concernsB apart enabledA
        enabledB redrawsA redrawsB second
  · intro k us u path
    obtain ⟨-, us', v, alone, -, labels, same⟩ := path.alone good.named k
    obtain ⟨record, tasks⟩ := Prod.mk.inj same
    refine ⟨us', v, alone, labels, record, ?_⟩
    simpa [NodeState.cells] using tasks

section Small

/-- The node opens a channel with its peer while the peer opens one with it. -/
theorem channelsIndependent_small : ∃ ra rb u v,
    ChannelStep.InOrder smallAlice .init
      (.newChannel (.ofUnsigned smallFundingTx) 1256 smallBob.id)
      (.recvNewChannel smallBob.id ⟨⟨9, 0⟩, 5000, 20, 93000, smallPoint 44⟩ ()) ra rb u ∧
    ChannelStep.InOrder smallAlice .init
      (.recvNewChannel smallBob.id ⟨⟨9, 0⟩, 5000, 20, 93000, smallPoint 44⟩ ())
      (.newChannel (.ofUnsigned smallFundingTx) 1256 smallBob.id) rb ra v ∧
    u.db = v.db ∧ u.tasks.Perm v.tasks := by
  obtain ⟨swap, -⟩ := channelsIndependent (n := smallNode) smallCrates_adaptor smallCrates_ecdsa
    smallCrates_miniscript smallCrates_psbt .nil
  obtain ⟨⟨ra, rb, u, v, first, second⟩, same, -⟩ :=
    swap (.newChannel (.ofUnsigned smallFundingTx) 1256 smallBob.id)
      (.recvNewChannel smallBob.id ⟨⟨9, 0⟩, 5000, 20, 93000, smallPoint 44⟩ ()) ⟨7, 0⟩ ⟨9, 0⟩
      rfl rfl (by decide) ⟨_, .refl _⟩ ⟨_, .refl _⟩
  obtain ⟨-, -, records, tasks⟩ := same _ _ _ _ _ _ first second
  exact ⟨ra, rb, u, v, first, second, records, tasks⟩

end Small

end Lindy
