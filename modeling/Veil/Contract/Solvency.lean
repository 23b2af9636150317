/-
# Solvency

The pool never owes more than it holds: its token balance is at least the sum of the amounts of
the notes in its tree that have not been spent.

What makes this more than bookkeeping is that nobody but the witnesses knows the amounts.  The
circuit balances them modulo the field's prime, does not range-check the inputs, and skips the
Merkle path of an input worth nothing.  The argument over a whole history is:

* an input worth something opens a leaf of a tree the pool really had, so its opening is that
  of a note some earlier accepted call created (`opens_note`), which was range-checked THEN;
* hence the sums are small and the equation holds for integers (`integer_balance`);
* two such inputs open two notes, because one note under one key has one nullifier, and neither
  had been spent (`redeemable`);
* the token moves at least the external amount (`Deployment.balance_enter`).

Collisions are excluded among the hashed values of the history and its witnesses only.  Of the
signature and nullifier hashes nothing is assumed: a collision there locks a note, it never
spends one twice.
-/
import Veil.Core.Outstanding
import Veil.Contract.TokenBalance

namespace Veil

open Tx Circuit

namespace Solvency

/-! ## 1. Histories and their notes -/

/-- Every call of the pool.  A settlement comes with the answer of the allowlist, and with that of
any verifier but the deployed one. -/
inductive Call where
  | request (r : Pool.Request) (aspRoot : Option Nat) (otherVerdict : Option Bool)
  | register (auth : Address → Bool) (account : Account)
  | deposit (sender : Address) (amount : Int) (commitment : Nat)
  | updateAdmin (auth : Address → Bool) (newAdmin : Address)
  | updateVerifier (auth : Address → Bool) (newVerifier : Address)
  | updateAspMembership (auth : Address → Bool) (newAspMembership : Address)

section Histories

variable {τ : Type} {lib : Circomlib} {L : Nat} (d : Deployment τ lib L)

def exec (c : Call) (env : Env τ) : Pool.Result (Env τ) :=
  match c with
  | .request r aspRoot otherVerdict => r.enter (d.externals aspRoot otherVerdict) env
  | .register auth account => Pool.register auth account env
  | .deposit sender amount commitment => Pool.deposit sender amount commitment env
  | .updateAdmin auth newAdmin => Pool.updateAdmin auth newAdmin env
  | .updateVerifier auth newVerifier => Pool.updateVerifier auth newVerifier env
  | .updateAspMembership auth newAspMembership =>
    Pool.updateAspMembership auth newAspMembership env

/-- The settlements of a log. -/
def requests (log : List Call) : List Pool.Request :=
  log.filterMap fun
    | .request r _ _ => some r
    | _ => none

/-- The witness behind an accepted settlement. -/
def witnessOf (r : Pool.Request) : Witness :=
  d.verifier.extract r.proof.proof (Pool.verifierPublicInputs r.proof)

/-- The notes a settlement puts in the tree. -/
def created (r : Pool.Request) : List OutputSignals :=
  if r.isExit then [] else (witnessOf d r).outs

/-- All inputs of the witnesses. -/
def inputs (log : List Call) : List InputSignals :=
  (requests log).flatMap fun r => (witnessOf d r).ins

/-- The notes of the tree, in the order of its leaves. -/
def notes (log : List Call) : List OutputSignals := (requests log).flatMap (created d)

end Histories

/-- The integer amount of the note at a position. -/
def noteAmount (ns : List OutputSignals) (i : Nat) : Nat := (ns[i]?.map (·.outAmount.val)).getD 0

/-- The nullifier of the note at a position, under its owner's private key. -/
def nullifierAt (sk commitment : F) (i : Nat) : F :=
  noteNullifier commitment i (signature sk commitment i)

/-- The note at a position has been spent with one of the keys. -/
def NoteSpent (keys : Set F) (ns : List OutputSignals) (s : PoolStorage) (i : Nat) : Prop :=
  ∃ o sk, ns[i]? = some o ∧ sk ∈ keys ∧ keypair sk = o.outPubkey ∧
    s.spent (nullifierAt sk o.commitment i).val = true

/-- The sum of the amounts of the unspent notes. -/
noncomputable def unspentValue (keys : Set F) (ns : List OutputSignals) (s : PoolStorage) : Nat :=
  Ledger.outstanding (noteAmount ns) (NoteSpent keys ns s) ns.length

/-! ## 2. What is hashed -/

section Hashed

variable {τ : Type} {lib : Circomlib} {L : Nat} (d : Deployment τ lib L) (log : List Call)

/-- The private keys of the witnesses. -/
def keys : Set F := {sk | ∃ i ∈ inputs d log, sk = i.inPrivateKey}

/-- The openings of the witnesses' inputs and of the notes in the tree. -/
def openings : Set (F × F × F) :=
  {p | (∃ i ∈ inputs d log, p = i.opening) ∨
    ∃ o ∈ notes d log, p = o.opening}

/-- The pairs hashed in the trees the pool went through, two leaves at a time, and along the
witnesses' paths. -/
def pairs : Set (F × F) :=
  {p | (∃ k, 2 * k ≤ (notes d log).length ∧ p ∈ Merkle.treePairs compress
      (Merkle.padded emptyLeaf (((notes d log).take (2 * k)).map (·.commitment))) L (2 ^ L)) ∨
    ∃ i ∈ inputs d log,
      p ∈ Merkle.pathPairs compress i.inPathElements i.inPathIndices.val i.commitment}

/-- **No collision among the hashed values**, and no opening of the empty leaf. -/
structure NoCollisions : Prop where
  key : Set.InjOn keypair (keys d log)
  commitment : Set.InjOn commitOpening (openings d log)
  compress : Merkle.NoCollision compress (pairs d log)
  notEmpty : ∀ i ∈ inputs d log, i.commitment ≠ emptyLeaf

end Hashed

variable {τ : Type} {lib : Circomlib} {L : Nat} {d : Deployment τ lib L} {log more : List Call}

theorem requests_append : requests (log ++ more) = requests log ++ requests more :=
  List.filterMap_append

theorem inputs_append : inputs d (log ++ more) = inputs d log ++ inputs d more := by
  rw [inputs, requests_append, List.flatMap_append]
  rfl

theorem notes_append : notes d (log ++ more) = notes d log ++ notes d more := by
  rw [notes, requests_append, List.flatMap_append]
  rfl

theorem keys_subset_append : keys d log ⊆ keys d (log ++ more) := by
  rintro _ ⟨i, hi, rfl⟩
  exact ⟨i, by rw [inputs_append]; exact List.mem_append_left _ hi, rfl⟩

theorem openings_subset_append : openings d log ⊆ openings d (log ++ more) := by
  rintro _ (⟨i, hi, rfl⟩ | ⟨o, ho, rfl⟩)
  · exact .inl ⟨i, by rw [inputs_append]; exact List.mem_append_left _ hi, rfl⟩
  · exact .inr ⟨o, by rw [notes_append]; exact List.mem_append_left _ ho, rfl⟩

theorem pairs_subset_append : pairs d log ⊆ pairs d (log ++ more) := by
  rintro p (⟨k, hk, hp⟩ | ⟨i, hi, hp⟩)
  · refine .inl ⟨k, ?_, ?_⟩
    · rw [notes_append, List.length_append]
      omega
    · rwa [notes_append, List.take_append_of_le_length hk]
  · exact .inr ⟨i, by rw [inputs_append]; exact List.mem_append_left _ hi, hp⟩

theorem NoCollisions.of_append (h : NoCollisions d (log ++ more)) : NoCollisions d log where
  key := h.key.mono keys_subset_append
  commitment := h.commitment.mono openings_subset_append
  compress := h.compress.mono pairs_subset_append
  notEmpty i hi := h.notEmpty i (by rw [inputs_append]; exact List.mem_append_left _ hi)

/-! ## 3. An input worth something opens a note -/

section Inputs

variable {ns : List OutputSignals} {i j : InputSignals} {o : OutputSignals} {K : Set F}

/-- **The note behind an input.**  The path leads to a root the pool had, the root binds the
leaf, and the leaf binds the opening. -/
theorem opens_note {s : MerkleStorage} {root : Nat} {S : Set (F × F)} {O : Set (F × F × F)}
    (hh : MerkleTreeWithHistory.Holds L (ns.map (·.commitment.val)) s)
    (hknown : MerkleTreeWithHistory.isKnownRoot s root = .ok true)
    (hS : Merkle.NoCollision compress S)
    (htree : ∀ k, 2 * k ≤ ns.length → Merkle.treePairs compress
      (Merkle.padded emptyLeaf ((ns.take (2 * k)).map (·.commitment))) L (2 ^ L) ⊆ S)
    (hO : Set.InjOn commitOpening O) (hns : ∀ o ∈ ns, o.opening ∈ O) (hi : i.opening ∈ O)
    (hpath : ∀ p ∈ Merkle.pathPairs compress i.inPathElements i.inPathIndices.val i.commitment,
      p ∈ S)
    (hp : InputPath L root i) (hne : i.inAmount ≠ 0) (hempty : i.commitment ≠ emptyLeaf) :
    ∃ o, ns[i.inPathIndices.val]? = some o ∧ i.opening = o.opening := by
  obtain ⟨slot, hslot⟩ := MerkleTreeWithHistory.isKnownRoot_true hknown
  obtain ⟨k, hk, hroot⟩ := hh.history slot root hslot
  rw [List.length_map] at hk
  have hfold : Merkle.foldPath compress i.inPathElements i.inPathIndices.val i.commitment =
      fieldRoot L ((ns.take (2 * k)).map (·.commitment)) := by
    have hmap : (ns.map (·.commitment.val)).take (2 * k) =
        ((ns.take (2 * k)).map (·.commitment)).map ZMod.val := by
      rw [← List.map_take, List.map_map]
      rfl
    rw [← hp.leads hne, hroot, hmap, ← val_fieldRoot, ZMod.natCast_zmod_val]
  have hget := Merkle.getElem?_of_foldPath hS (htree k hk) hp.length hp.index hpath hfold hempty
  rw [List.getElem?_map, Option.map_eq_some_iff] at hget
  obtain ⟨o, ho, hc⟩ := hget
  rw [List.getElem?_take] at ho
  split at ho
  · refine ⟨o, ho, hO hi (hns o (List.mem_of_getElem? ho)) ?_⟩
    rw [← i.commitment_eq, ← o.commitment_eq, hc]
  · cases ho

/-- The nullifier the circuit computes is that of the note it opens. -/
theorem nullifierAt_eq (h : i.opening = o.opening) :
    nullifierAt i.inPrivateKey o.commitment i.inPathIndices.val = i.nullifier := by
  rw [nullifierAt, ZMod.natCast_zmod_val, o.commitment_eq, ← h, ← i.commitment_eq]
  rfl

theorem keypair_eq (h : i.opening = o.opening) : keypair i.inPrivateKey = o.outPubkey :=
  congrArg (fun p => p.2.1) h

/-- An input whose nullifier is new opens a note that is not spent. -/
theorem not_noteSpent {s : PoolStorage} (hK : Set.InjOn keypair K) (hi : i.inPrivateKey ∈ K)
    (hget : ns[i.inPathIndices.val]? = some o) (h : i.opening = o.opening)
    (hnew : s.spent i.nullifier.val = false) : ¬NoteSpent K ns s i.inPathIndices.val := by
  rintro ⟨o', sk, hget', hsk, hkey, hspent⟩
  obtain rfl : o = o' := Option.some.inj (hget.symm.trans hget')
  -- the owner has one key among these
  obtain rfl : i.inPrivateKey = sk := hK hi hsk ((keypair_eq h).trans hkey.symm)
  rw [nullifierAt_eq h, hnew] at hspent
  cases hspent

theorem noteSpent {s : PoolStorage} (hi : i.inPrivateKey ∈ K)
    (hget : ns[i.inPathIndices.val]? = some o) (h : i.opening = o.opening)
    (hspent : s.spent i.nullifier.val = true) : NoteSpent K ns s i.inPathIndices.val :=
  ⟨o, i.inPrivateKey, hget, hi, keypair_eq h, by rw [nullifierAt_eq h]; exact hspent⟩

/-- Two inputs that open the same note have the same nullifier. -/
theorem nullifier_eq_of_index (hK : Set.InjOn keypair K) (hi : i.inPrivateKey ∈ K)
    (hj : j.inPrivateKey ∈ K) {o' : OutputSignals} (hget : ns[i.inPathIndices.val]? = some o)
    (h : i.opening = o.opening) (hget' : ns[j.inPathIndices.val]? = some o')
    (h' : j.opening = o'.opening) (hidx : i.inPathIndices.val = j.inPathIndices.val) :
    i.nullifier = j.nullifier := by
  obtain rfl : o = o' := Option.some.inj (hget.symm.trans (hidx ▸ hget'))
  have hkey : i.inPrivateKey = j.inPrivateKey :=
    hK hi hj ((keypair_eq h).trans (keypair_eq h').symm)
  rw [← nullifierAt_eq h, ← nullifierAt_eq h', hkey, hidx]

end Inputs

/-! ## 4. The equation holds for integers -/

theorem integer_balance {proof : Proof} {w : Witness} {ext : Int} (hst : Statement L proof w)
    (hext : |ext| < 2 ^ 248) (hpub : (proof.publicAmount : F) = (ext : F))
    (hins : ∀ i ∈ w.ins, i.inAmount.val < 2 ^ 248) :
    ((w.ins.map (·.inAmount.val)).sum : Nat) + ext =
      ((w.outs.map (·.outAmount.val)).sum : Nat) := by
  obtain ⟨i0, i1, hi⟩ := List.length_eq_two.mp hst.two_ins
  have hlen : w.outs.length = 2 := by simpa using (congrArg List.length hst.commitments).symm
  obtain ⟨o0, o1, ho⟩ := List.length_eq_two.mp hlen
  have hbal := hst.balance
  have hout := hst.ranges
  rw [hpub] at hbal
  simp only [hi, ho, List.map_cons, List.map_nil, List.sum_cons, List.sum_nil, add_zero,
    List.forall_mem_cons, List.not_mem_nil, false_implies, implies_true, and_true]
    at hbal hins hout ⊢
  obtain ⟨b0, b1⟩ := hins
  obtain ⟨c0, c1⟩ := hout
  -- the difference is a multiple of the prime, and too small to be another one than zero
  have hzero : ((((i0.inAmount.val + i1.inAmount.val : Nat) : Int) + ext -
      ((o0.outAmount.val + o1.outAmount.val : Nat) : Int) : Int) : F) = 0 := by
    push_cast
    rw [ZMod.natCast_zmod_val, ZMod.natCast_zmod_val, ZMod.natCast_zmod_val,
      ZMod.natCast_zmod_val, hbal, sub_self]
  have hdvd := (ZMod.intCast_zmod_eq_zero_iff_dvd _ _).mp hzero
  have hp : (2 : Int) ^ 253 < bn256Modulus := by exact_mod_cast two_pow_253_lt
  have hsmall := Int.eq_zero_of_abs_lt_dvd hdvd (by
    rw [abs_lt] at hext ⊢
    constructor <;> omega)
  omega

/-! ## 5. The unspent notes over one call -/

section Unspent

variable {ns new : List OutputSignals} {K : Set F} {s s' : PoolStorage} {l : List InputSignals}

theorem noteAmount_of_get {i : Nat} {o : OutputSignals} (h : ns[i]? = some o) :
    noteAmount ns i = o.outAmount.val := by
  rw [noteAmount, h]
  rfl

theorem sum_noteAmount (ns : List OutputSignals) :
    ∑ i ∈ Finset.range ns.length, noteAmount ns i = (ns.map (·.outAmount.val)).sum := by
  induction ns with
  | nil => rfl
  | cons o ns ih =>
    rw [List.length_cons, Finset.sum_range_succ', List.map_cons, List.sum_cons, ← ih, add_comm]
    rfl

/-- New notes add at most their amounts. -/
theorem unspentValue_append :
    unspentValue K (ns ++ new) s ≤ unspentValue K ns s + (new.map (·.outAmount.val)).sum := by
  have hold : Ledger.outstanding (noteAmount (ns ++ new)) (NoteSpent K (ns ++ new) s) ns.length =
      unspentValue K ns s := by
    refine Ledger.outstanding_congr (fun i hi => ?_) fun i hi => ?_
    · rw [noteAmount, List.getElem?_append_left hi]
      rfl
    · rw [NoteSpent, List.getElem?_append_left hi]
      rfl
  have hnew : ∑ i ∈ Finset.range new.length, noteAmount (ns ++ new) (ns.length + i) =
      (new.map (·.outAmount.val)).sum := by
    rw [← sum_noteAmount]
    refine Finset.sum_congr rfl fun i _ => ?_
    rw [noteAmount, List.getElem?_append_right (Nat.le_add_right _ _), Nat.add_sub_cancel_left]
    rfl
  rw [unspentValue, List.length_append, ← hold, ← hnew]
  exact Ledger.outstanding_add _

/-- Inputs worth nothing do not count. -/
theorem sum_filter_inAmount (l : List InputSignals) :
    ((l.filter fun i => i.inAmount ≠ 0).map (·.inAmount.val)).sum =
      (l.map (·.inAmount.val)).sum := by
  induction l with
  | nil => rfl
  | cons i l ih =>
    by_cases hi : i.inAmount = 0
    · rw [List.filter_cons_of_neg (by simpa using hi), List.map_cons, List.sum_cons, hi,
        ZMod.val_zero, Nat.zero_add, ih]
    · rw [List.filter_cons_of_pos (by simpa using hi), List.map_cons, List.map_cons,
        List.sum_cons, List.sum_cons, ih]

/-- An input the notes account for: it is worth nothing, or it opens one of them. -/
def Accounted (ns : List OutputSignals) (i : InputSignals) : Prop :=
  i.inAmount ≠ 0 → ∃ o, ns[i.inPathIndices.val]? = some o ∧ i.opening = o.opening

/-- **Spent notes are worth what the inputs are.** -/
theorem unspentValue_spend (hK : Set.InjOn keypair K) (hkeys : ∀ i ∈ l, i.inPrivateKey ∈ K)
    (hacc : ∀ i ∈ l, Accounted ns i) (hnodup : (l.map (·.nullifier.val)).Nodup)
    (hnew : ∀ i ∈ l, s.spent i.nullifier.val = false)
    (hspent : ∀ n, s'.spent n = (decide (n ∈ l.map (·.nullifier.val)) || s.spent n)) :
    unspentValue K ns s' + (l.map (·.inAmount.val)).sum ≤ unspentValue K ns s := by
  set v := l.filter fun i => i.inAmount ≠ 0 with hv
  have hmem : ∀ i ∈ v, i ∈ l ∧ ∃ o, ns[i.inPathIndices.val]? = some o ∧ i.opening = o.opening :=
    fun i hi => by
      obtain ⟨hil, hne⟩ := List.mem_filter.mp hi
      exact ⟨hil, hacc i hil (by simpa using hne)⟩
  -- different inputs open different notes
  have hidx : (v.map (·.inPathIndices.val)).Nodup := by
    have hpair : v.Pairwise fun a b => a.nullifier.val ≠ b.nullifier.val :=
      (List.pairwise_map.mp hnodup).sublist List.filter_sublist
    refine List.pairwise_map.mpr (hpair.imp_of_mem fun {a b} ha hb hne he => hne ?_)
    obtain ⟨hal, o, hget, ho⟩ := hmem a ha
    obtain ⟨hbl, o', hget', ho'⟩ := hmem b hb
    exact congrArg ZMod.val
      (nullifier_eq_of_index hK (hkeys a hal) (hkeys b hbl) hget ho hget' ho' he)
  have hsum : ∑ i ∈ (v.map (·.inPathIndices.val)).toFinset, noteAmount ns i =
      (l.map (·.inAmount.val)).sum := by
    rw [List.sum_toFinset _ hidx, List.map_map, ← sum_filter_inAmount, ← hv]
    congr 1
    refine List.map_congr_left fun i hi => ?_
    obtain ⟨-, o, hget, ho⟩ := hmem i hi
    have hamount : i.inAmount = o.outAmount := congrArg Prod.fst ho
    rw [Function.comp_apply, noteAmount_of_get hget, hamount]
  rw [← hsum]
  refine Ledger.outstanding_redeem ?_ ?_ ?_ ?_
  · rintro i - ⟨o, sk, hget, hsk, hkey, hold⟩
    exact ⟨o, sk, hget, hsk, hkey, by rw [hspent, hold, Bool.or_true]⟩
  all_goals
    intro n hn
    obtain ⟨i, hi, rfl⟩ := List.mem_map.mp (List.mem_toFinset.mp hn)
    obtain ⟨hil, o, hget, ho⟩ := hmem i hi
  · exact (List.getElem?_eq_some_iff.mp hget).1
  · exact not_noteSpent hK (hkeys i hil) hget ho (hnew i hil)
  · refine noteSpent (hkeys i hil) hget ho ?_
    rw [hspent, decide_eq_true (List.mem_map.mpr ⟨i, hil, rfl⟩), Bool.true_or]

end Unspent

/-! ## 6. The invariant -/

/-- **The pool after the accepted calls `log`**: it holds the notes, they are range-checked, and
they are covered. -/
structure Solvent (d : Deployment τ lib L) (K : Set F) (log : List Call) (env : Env τ) :
    Prop where
  holds : Pool.PoolHolds L ((notes d log).map (·.commitment.val)) env.pool
  ranges : ∀ o ∈ notes d log, o.outAmount.val < 2 ^ 248
  verifier : env.pool.verifier = some d.verifierAddress
  fee : ∃ feeBps ≤ maxFeeBps, env.pool.feeBps = some feeBps
  covered : (unspentValue K (notes d log) env.pool : Int) ≤ d.balance env

variable {K : Set F} {env env' : Env τ} {r : Pool.Request} {aspRoot : Option Nat}
  {otherVerdict : Option Bool}

theorem inputs_request :
    inputs d (log ++ [.request r aspRoot otherVerdict]) = inputs d log ++ (witnessOf d r).ins := by
  rw [inputs_append]
  simp [inputs, requests]

theorem notes_request :
    notes d (log ++ [.request r aspRoot otherVerdict]) = notes d log ++ created d r := by
  rw [notes_append]
  simp [notes, requests]

/-- The inputs of an accepted call are accounted for. -/
theorem Solvent.accounted (h : Solvent d K log env)
    (hnc : NoCollisions d (log ++ [.request r aspRoot otherVerdict]))
    (hknown : MerkleTreeWithHistory.isKnownRoot env.pool.tree r.proof.root = .ok true)
    (hst : Statement L r.proof (witnessOf d r)) :
    ∀ i ∈ (witnessOf d r).ins, Accounted (notes d log) i := by
  intro i hi hne
  have hin : i ∈ inputs d (log ++ [.request r aspRoot otherVerdict]) := by
    rw [inputs_request]
    exact List.mem_append_right _ hi
  refine opens_note h.holds.tree hknown hnc.compress
    (fun k hk p hp => pairs_subset_append (.inl ⟨k, hk, hp⟩)) hnc.commitment
    (fun o ho => openings_subset_append (.inr ⟨o, ho, rfl⟩)) (.inl ⟨i, hin, rfl⟩)
    (fun p hp => .inr ⟨i, hin, hp⟩) (hst.paths i hi) hne (hnc.notEmpty i hin)

theorem Accounted.inAmount_lt {ns : List OutputSignals} {i : InputSignals} (h : Accounted ns i)
    (hns : ∀ o ∈ ns, o.outAmount.val < 2 ^ 248) : i.inAmount.val < 2 ^ 248 := by
  by_cases hne : i.inAmount = 0
  · rw [hne, ZMod.val_zero]
    exact Nat.two_pow_pos 248
  · obtain ⟨o, hget, ho⟩ := h hne
    have hamount : i.inAmount = o.outAmount := congrArg Prod.fst ho
    rw [hamount]
    exact hns o (List.mem_of_getElem? hget)

/-- The outputs of the call are the notes it creates, or are forfeited. -/
theorem created_outputs (hst : Statement L r.proof (witnessOf d r)) :
    Pool.Settled.outputs ⟨r.proof, !r.isExit⟩ = (created d r).map (·.commitment.val) := by
  unfold Pool.Settled.outputs created
  cases r.isExit with
  | true => rfl
  | false => exact hst.commitments

theorem sum_created_le : ((created d r).map (·.outAmount.val)).sum ≤
    ((witnessOf d r).outs.map (·.outAmount.val)).sum := by
  unfold created
  split
  · exact Nat.zero_le _
  · exact le_rfl

/-- **One accepted settlement.** -/
theorem Solvent.request (h : Solvent d K log env) (hK : Set.InjOn keypair K)
    (hkeys : keys d (log ++ [.request r aspRoot otherVerdict]) ⊆ K)
    (hnc : NoCollisions d (log ++ [.request r aspRoot otherVerdict])) (hs : r.sender ≠ d.this)
    (hok : r.enter (d.externals aspRoot otherVerdict) env = .ok env') :
    Solvent d K (log ++ [.request r aspRoot otherVerdict]) env' := by
  obtain ⟨feeBps, hmax, hbps⟩ := h.fee
  have hq : Pool.Quiet (d.externals aspRoot otherVerdict) := Deployment.quiet_externals
  obtain ⟨env1, t, ⟨hpool1, -⟩, ht, -⟩ := r.enter_respects hq Pool.SamePool.refl hok
  obtain ⟨hverified, hstored, -⟩ := ht.quiet hq
  have hasked : t.asked.pool.verifier = some d.verifierAddress := by
    rw [(hq.getAspMembershipRoot ht.memberRoot).1, hpool1]
    exact h.verifier
  have hdepth : L ≤ 253 := by
    have := h.holds.tree.depth.2
    omega
  have hst : Statement L r.proof (witnessOf d r) :=
    (ht.statement hasked Deployment.consults_externals hdepth).2
  -- what the inputs open, and what that makes of the equation
  have hacc : ∀ i ∈ (witnessOf d r).ins, Accounted (notes d log) i :=
    h.accounted hnc (hpool1 ▸ ht.known) hst
  obtain ⟨hext, hpub⟩ := Pool.calculatePublicAmount_ok ht.publicAmount
  have hbal := integer_balance hst hext hpub fun i hi => (hacc i hi).inAmount_lt h.ranges
  -- what the call does to the notes and to the balance
  have hgrows := ht.grows
  rw [hverified, hpool1] at hgrows
  have hspend : unspentValue K (notes d log) env'.pool + _ ≤
      unspentValue K (notes d log) env.pool :=
    unspentValue_spend hK
      (fun i hi => hkeys ⟨i, by rw [inputs_request]; exact List.mem_append_right _ hi, rfl⟩) hacc
      (hst.nullifiers ▸ hst.distinct)
      (fun i hi => hgrows.nullifiers_fresh _
        (by rw [hst.nullifiers]; exact List.mem_map.mpr ⟨i, hi, rfl⟩))
      (fun n => by rw [hstored, ← hst.nullifiers]; exact hgrows.spent n)
  have happend : unspentValue K (notes d log ++ created d r) env'.pool ≤ _ := unspentValue_append
  have hcreated := sum_created_le (d := d) (r := r)
  have hmoved := Deployment.balance_enter hs hbps hmax hok
  have hcovered := h.covered
  have hconfig := ht.config hq
  rw [hpool1] at hconfig
  refine ⟨?_, ?_, ?_, ⟨feeBps, hmax, ?_⟩, ?_⟩
  · have hholds := (Pool.PoolHolds.settles (hpool1 ▸ h.holds) hq ht).1
    rw [notes_request, List.map_append, ← created_outputs hst]
    exact hholds
  · rw [notes_request]
    intro o ho
    rcases List.mem_append.mp ho with ho | ho
    · exact h.ranges o ho
    · unfold created at ho
      split at ho
      · cases ho
      · exact hst.ranges o ho
  · rw [hconfig]
    exact h.verifier
  · rw [hconfig]
    exact hbps
  · rw [notes_request]
    omega

/-- A call that only changes the configuration. -/
theorem Solvent.settings (h : Solvent d K log env) {c : Call} (hc : requests [c] = [])
    (hpool : ∃ a v m, env'.pool = { env.pool with admin := a, verifier := v, aspMembership := m })
    (hver : env'.pool.verifier = some d.verifierAddress) (hrest : env'.rest = env.rest) :
    Solvent d K (log ++ [c]) env' := by
  have hnotes : notes d (log ++ [c]) = notes d log := by
    have hnone : notes d [c] = [] := by rw [notes, hc]; rfl
    rw [notes_append, hnone, List.append_nil]
  obtain ⟨a, v, m, hpool⟩ := hpool
  refine ⟨?_, by rw [hnotes]; exact h.ranges, hver, ?_, ?_⟩
  · rw [hnotes, hpool]
    exact ⟨h.holds.tree, h.holds.nodup, h.holds.recorded⟩
  · rw [hpool]
    exact h.fee
  · have hbal : d.balance env' = d.balance env := by rw [Deployment.balance, hrest]; rfl
    rw [hnotes, hbal, hpool]
    exact h.covered

/-- The conditions on a history: nobody settles in the pool's own name, the verifier stays, and
the hashes do not collide. -/
structure Proper (d : Deployment τ lib L) (log : List Call) : Prop where
  sender : ∀ r aspRoot otherVerdict, .request r aspRoot otherVerdict ∈ log → r.sender ≠ d.this
  verifier : ∀ auth v, .updateVerifier auth v ∈ log → v = d.verifierAddress
  noCollisions : NoCollisions d log

theorem Proper.of_append (h : Proper d (log ++ more)) : Proper d log where
  sender r a o hr := h.sender r a o (List.mem_append_left _ hr)
  verifier auth v hv := h.verifier auth v (List.mem_append_left _ hv)
  noCollisions := h.noCollisions.of_append

/-- **One accepted call.** -/
theorem Solvent.step {c : Call} (h : Solvent d K log env) (hK : Set.InjOn keypair K)
    (hkeys : keys d (log ++ [c]) ⊆ K) (hp : Proper d (log ++ [c]))
    (hok : exec d c env = .ok env') : Solvent d K (log ++ [c]) env' := by
  have hlast : c ∈ log ++ [c] := List.mem_append_right _ List.mem_cons_self
  cases c with
  | request r aspRoot otherVerdict =>
    exact h.request hK hkeys hp.noCollisions (hp.sender r _ _ hlast) hok
  | register auth account =>
    simp only [exec, Pool.register, bind_eq_ok, Except.ok.injEq] at hok
    obtain ⟨-, -, rfl⟩ := hok
    exact h.settings rfl ⟨_, _, _, rfl⟩ h.verifier rfl
  | deposit sender amount commitment => cases hok
  | updateAdmin auth newAdmin =>
    simp only [exec, Pool.updateAdmin, bind_eq_ok, Except.ok.injEq] at hok
    obtain ⟨-, -, _, -, -, -, rfl⟩ := hok
    exact h.settings rfl ⟨_, _, _, rfl⟩ h.verifier rfl
  | updateVerifier auth newVerifier =>
    simp only [exec, Pool.updateVerifier, bind_eq_ok, Except.ok.injEq] at hok
    obtain ⟨_, -, -, -, rfl⟩ := hok
    exact h.settings rfl ⟨_, _, _, rfl⟩ (congrArg some (hp.verifier auth newVerifier hlast)) rfl
  | updateAspMembership auth newAspMembership =>
    simp only [exec, Pool.updateAspMembership, bind_eq_ok, Except.ok.injEq] at hok
    obtain ⟨_, -, -, -, rfl⟩ := hok
    exact h.settings rfl ⟨_, _, _, rfl⟩ h.verifier rfl

/-- **Every history.**  The keys are those of the whole of it. -/
theorem solvent_run (hK : Set.InjOn keypair K) (h0 : Solvent d K [] env) (calls : List Call)
    (hkeys : keys d (accepted (exec d) calls env) ⊆ K)
    (hp : Proper d (accepted (exec d) calls env)) :
    Solvent d K (accepted (exec d) calls env) (run (exec d) calls env) := by
  refine accepted_induction (P := fun log e => keys d log ⊆ K → Proper d log → Solvent d K log e)
    (fun log e c e' hP hok hkeys hp => ?_) calls [] env (fun _ _ => h0) hkeys hp
  exact (hP (keys_subset_append.trans hkeys) hp.of_append).step hK hkeys hp hok

theorem unspentValue_anti {ns : List OutputSignals} {s : PoolStorage} {ks : Set F} (h : K ⊆ ks) :
    unspentValue ks ns s ≤ unspentValue K ns s := by
  refine Ledger.outstanding_anti fun i _ => ?_
  rintro ⟨o, sk, hget, hsk, hkey, hspent⟩
  exact ⟨o, sk, hget, h hsk, hkey, hspent⟩

/-- **Solvency.**  For every freshly constructed pool and every history of accepted and refused
calls in which nobody settles in the pool's own name, the verifier stays and no hashes collide:
the tree is that of the notes the witnesses opened, and the pool's balance is at least the
sum of the amounts of those that are not spent.

A note counts as spent when its nullifier under some key `ks` of its owner is recorded.  The bound
holds for the keys that occur in the witnesses, and so for any larger set, such as all of them. -/
theorem pool_is_solvent (d : Deployment τ lib L) {admin asp feeRecipient : Address}
    {maximumDeposit feeBps : Nat} {s0 : PoolStorage}
    (h0 : Pool.constructor admin d.tokenAddress d.verifierAddress asp maximumDeposit feeRecipient
      feeBps L = .ok s0) (t0 : τ) (calls : List Call)
    (hp : Proper d (accepted (exec d) calls ⟨s0, [], t0⟩)) :
    let log := accepted (exec d) calls ⟨s0, [], t0⟩
    let env := run (exec d) calls ⟨s0, [], t0⟩
    env.pool.tree.nextIndex = some (notes d log).length ∧
      Pool.getRoot env.pool = .ok (treeRoot L ((notes d log).map (·.commitment.val))) ∧
      ∀ ks, keys d log ⊆ ks →
        (unspentValue ks (notes d log) env.pool : Int) ≤ d.token.balance env.rest d.this := by
  intro log env
  obtain ⟨hmax, -, -, hempty, -, -, hver, -, -, -, hfee⟩ := Pool.constructor_ok h0
  have hfresh : Solvent d (keys d log) [] ⟨s0, [], t0⟩ := by
    refine ⟨hempty, by simp [notes, requests], hver, ⟨feeBps, hmax, hfee⟩, ?_⟩
    have hnone : unspentValue (keys d log) (notes d []) s0 = 0 := Ledger.outstanding_zero
    rw [hnone]
    exact d.token.nonneg t0 d.this
  have h : Solvent d (keys d log) log env :=
    solvent_run hp.noCollisions.key hfresh calls subset_rfl hp
  refine ⟨?_, ?_, fun ks hks => ?_⟩
  · simpa using h.holds.tree.nextIndex
  · rw [Pool.getRoot, h.holds.tree.getLastRoot, liftMerkle_eq_ok.mpr rfl]
  · exact le_trans (Int.ofNat_le.mpr (unspentValue_anti hks)) h.covered

/-! ### A note is spent -/

/-- A token that keeps its balances in a table. -/
def tableToken : Token (Address → Nat) where
  balance t a := t a
  transfer t sender receiver amount :=
    if 0 ≤ amount ∧ amount ≤ t sender then
      let taken := Function.update t sender (t sender - amount.toNat)
      some (Function.update taken receiver (taken receiver + amount.toNat))
    else none
  nonneg t a := Int.natCast_nonneg _
  moves := by
    intro t t' sender receiver amount h a
    simp only [Option.ite_none_right_eq_some, Option.some.injEq] at h
    obtain ⟨⟨h0, hle⟩, rfl⟩ := h
    by_cases hr : a = receiver <;> by_cases hs : a = sender
    · subst hr hs
      simp
      omega
    · subst hr
      simp [hs]
      omega
    · subst hs
      simp [hr]
      omega
    · simp [hr, hs]

/-- The leaf of the key 1, alone on an allowlist of depth 2. -/
def loneMember : MembershipProof :=
  ⟨membershipLeaf (keypair 1) (4 : Nat), (4 : Nat), [emptyLeaf, compress emptyLeaf emptyLeaf], 0⟩

/-- An input worth nothing. -/
def emptyInput (blinding : Nat) : InputSignals := ⟨0, 1, blinding, 0, [0, 0], [loneMember]⟩

/-- The deposit of 5, at leaf 0. -/
def enterWitness : Witness where
  ins := [emptyInput 2, emptyInput 3]
  outs := [⟨(5 : Nat), keypair 1, (6 : Nat)⟩, ⟨0, keypair 1, (7 : Nat)⟩]

/-- The note of 5, with its path in the tree of two leaves. -/
def spentInput : InputSignals :=
  ⟨(5 : Nat), 1, (6 : Nat), 0,
    [noteCommitment 0 (keypair 1) (7 : Nat), compress emptyLeaf emptyLeaf], [loneMember]⟩

/-- Of the 5, 2 leave the pool and 3 stay. -/
def leaveWitness : Witness where
  ins := [spentInput, emptyInput 8]
  outs := [⟨(3 : Nat), keypair 1, (9 : Nat)⟩, ⟨0, keypair 1, (10 : Nat)⟩]

/-- The public numbers of a witness. -/
def proofOf (root : F) (publicAmount : Nat) (w : Witness) : Proof where
  proof := ⟨.replicate 64 0, .replicate 128 0, .replicate 64 0⟩
  root := root.val
  inputNullifiers := w.ins.map (·.nullifier.val)
  outputCommitment0 := (w.outs.map (·.commitment.val)).getD 0 0
  outputCommitment1 := (w.outs.map (·.commitment.val)).getD 1 0
  publicAmount := publicAmount
  extDataHash := 0
  aspMembershipRoot :=
    (Merkle.foldPath compress loneMember.pathElements 0 loneMember.leaf).val

def enterProof : Proof := proofOf (fieldRoot 2 []) 5 enterWitness

def leaveProof : Proof :=
  proofOf (fieldRoot 2 (enterWitness.outs.map (·.commitment))) (bn256Modulus - 2) leaveWitness

/-- The membership of every input of the two witnesses. -/
theorem memberPath_lone {i : InputSignals} (hkey : i.inPrivateKey = 1) (root : F)
    (publicAmount : Nat) (w : Witness) :
    MemberPath 2 (proofOf root publicAmount w).aspMembershipRoot i loneMember where
  leaf := by
    rw [InputSignals.publicKey, hkey]
    rfl
  length := rfl
  index := by
    rw [loneMember, ZMod.val_zero]
    decide
  leads := by
    rw [proofOf, ZMod.natCast_zmod_val, loneMember, ZMod.val_zero]

theorem inputPath_empty (blinding root : Nat) : InputPath 2 root (emptyInput blinding) where
  length := rfl
  index := by
    rw [emptyInput, ZMod.val_zero]
    decide
  leads hne := absurd rfl hne

theorem inputPath_spent : InputPath 2 leaveProof.root spentInput where
  length := rfl
  index := by
    rw [spentInput, ZMod.val_zero]
    decide
  leads _ := by decide +kernel

theorem enter_statement : Statement 2 enterProof enterWitness where
  two_ins := rfl
  nullifiers := rfl
  distinct := by decide +kernel
  commitments := rfl
  paths i hi := by
    rcases List.mem_pair.mp hi with rfl | rfl <;> exact inputPath_empty _ _
  members i hi := by
    rcases List.mem_pair.mp hi with rfl | rfl <;> exact ⟨_, rfl, memberPath_lone rfl _ _ _⟩
  ranges o ho := by
    rcases List.mem_pair.mp ho with rfl | rfl <;> decide +kernel
  balance := by decide +kernel

theorem leave_statement : Statement 2 leaveProof leaveWitness where
  two_ins := rfl
  nullifiers := rfl
  distinct := by decide +kernel
  commitments := rfl
  paths i hi := by
    rcases List.mem_pair.mp hi with rfl | rfl
    · exact inputPath_spent
    · exact inputPath_empty _ _
  members i hi := by
    rcases List.mem_pair.mp hi with rfl | rfl <;> exact ⟨_, rfl, memberPath_lone rfl _ _ _⟩
  ranges o ho := by
    rcases List.mem_pair.mp ho with rfl | rfl <;> decide +kernel
  balance := by decide +kernel

/-- A verifier that knows these two proofs. -/
def twoProofs : SoundVerifier Circomlib.standard 2 where
  verify _ xs := some (decide (xs = Pool.verifierPublicInputs enterProof ∨
    xs = Pool.verifierPublicInputs leaveProof))
  extract _ xs := if xs = Pool.verifierPublicInputs enterProof then enterWitness else leaveWitness
  sound _ xs h := by
    have hknown : xs = Pool.verifierPublicInputs enterProof ∨
        xs = Pool.verifierPublicInputs leaveProof := by simpa using h
    by_cases henter : xs = Pool.verifierPublicInputs enterProof
    · rw [if_pos henter, henter]
      exact enter_statement.satisfies
    · rw [if_neg henter, hknown.resolve_left henter]
      exact leave_statement.satisfies

def sampleDeployment : Deployment (Address → Nat) Circomlib.standard 2 where
  this := .contract 6
  tokenAddress := .contract 2
  verifierAddress := .contract 3
  digest _ := 0
  token := tableToken
  verifier := twoProofs

def settlement (proof : Proof) (extAmount : Int) : Call :=
  .request ⟨false, fun _ => true, proof, ⟨.account 7, extAmount, [], []⟩, .account 7⟩
    (some proof.aspMembershipRoot) none

/-- A deposit of 5, and a payout of 2 of it. -/
def sampleCalls : List Call := [settlement enterProof 5, settlement leaveProof (-2)]

theorem leave_ne_enter :
    Pool.verifierPublicInputs leaveProof ≠ Pool.verifierPublicInputs enterProof := by
  decide +kernel

theorem notes_sample :
    notes sampleDeployment sampleCalls = enterWitness.outs ++ leaveWitness.outs := by
  have henter : witnessOf sampleDeployment ⟨false, fun _ => true, enterProof,
      ⟨.account 7, 5, [], []⟩, .account 7⟩ = enterWitness := if_pos rfl
  have hleave : witnessOf sampleDeployment ⟨false, fun _ => true, leaveProof,
      ⟨.account 7, -2, [], []⟩, .account 7⟩ = leaveWitness := if_neg leave_ne_enter
  simp [notes, requests, sampleCalls, settlement, created, henter, hleave]

theorem inputs_sample :
    inputs sampleDeployment sampleCalls = enterWitness.ins ++ leaveWitness.ins := by
  have henter : witnessOf sampleDeployment ⟨false, fun _ => true, enterProof,
      ⟨.account 7, 5, [], []⟩, .account 7⟩ = enterWitness := if_pos rfl
  have hleave : witnessOf sampleDeployment ⟨false, fun _ => true, leaveProof,
      ⟨.account 7, -2, [], []⟩, .account 7⟩ = leaveWitness := if_neg leave_ne_enter
  simp [inputs, requests, sampleCalls, settlement, henter, hleave]

/-- The openings of the two witnesses. -/
def sampleOpenings : List (F × F × F) :=
  [(0, keypair 1, (2 : Nat)), (0, keypair 1, (3 : Nat)), ((5 : Nat), keypair 1, (6 : Nat)),
   (0, keypair 1, (7 : Nat)), (0, keypair 1, (8 : Nat)), ((3 : Nat), keypair 1, (9 : Nat)),
   (0, keypair 1, (10 : Nat))]

/-- The pairs hashed by the trees of no, two and four leaves, and by the four paths. -/
def sampleHashed : List (F × F) :=
  let zero := compress emptyLeaf emptyLeaf
  let five := noteCommitment (5 : Nat) (keypair 1) (6 : Nat)
  let three := noteCommitment (3 : Nat) (keypair 1) (9 : Nat)
  let none (blinding : Nat) := noteCommitment 0 (keypair 1) blinding
  [(emptyLeaf, emptyLeaf), (zero, zero), (five, none 7), (compress five (none 7), zero),
   (three, none 10), (compress five (none 7), compress three (none 10)),
   (none 2, 0), (compress (none 2) 0, 0), (none 3, 0), (compress (none 3) 0, 0), (none 8, 0),
   (compress (none 8) 0, 0)]

theorem nodup_sampleOpenings : (sampleOpenings.map commitOpening).Nodup := by decide +kernel

theorem nodup_sampleHashed : (sampleHashed.map fun p => compress p.1 p.2).Nodup := by
  decide +kernel

theorem sample_notEmpty : ∀ i ∈ enterWitness.ins ++ leaveWitness.ins, i.commitment ≠ emptyLeaf := by
  decide +kernel

theorem mem_sampleInputs {i : InputSignals} (hi : i ∈ inputs sampleDeployment sampleCalls) :
    i = spentInput ∨ ∃ blinding ∈ [2, 3, 8], i = emptyInput blinding := by
  rw [inputs_sample] at hi
  simpa [enterWitness, leaveWitness, or_comm, or_left_comm, or_assoc] using hi

theorem openings_sample : ∀ p ∈ openings sampleDeployment sampleCalls, p ∈ sampleOpenings := by
  rintro p (⟨i, hi, rfl⟩ | ⟨o, ho, rfl⟩)
  · rcases mem_sampleInputs hi with rfl | ⟨blinding, hb, rfl⟩
    · simp [InputSignals.opening, InputSignals.publicKey, spentInput, sampleOpenings]
    · simp only [List.mem_cons, List.not_mem_nil, or_false] at hb
      rcases hb with rfl | rfl | rfl <;>
        simp [InputSignals.opening, InputSignals.publicKey, emptyInput, sampleOpenings]
  · rw [notes_sample] at ho
    simp only [enterWitness, leaveWitness, List.cons_append, List.nil_append, List.mem_cons,
      List.not_mem_nil, or_false] at ho
    rcases ho with rfl | rfl | rfl | rfl <;> simp [OutputSignals.opening, sampleOpenings]

theorem pairs_sample : ∀ p ∈ pairs sampleDeployment sampleCalls, p ∈ sampleHashed := by
  rintro p (⟨k, hk, d, i, hd, hi, -, rfl⟩ | ⟨i, hi, hp⟩)
  · rw [notes_sample] at hk ⊢
    have hk : k ≤ 2 := by
      have : 2 * k ≤ 4 := hk
      omega
    have hnode : d = 0 ∧ i < 2 ∨ d = 1 ∧ i = 0 := by
      interval_cases d
      · exact .inl ⟨rfl, hi⟩
      · exact .inr ⟨rfl, Nat.lt_one_iff.mp hi⟩
    rcases hnode with ⟨rfl, hi⟩ | ⟨rfl, rfl⟩
    · interval_cases k <;> interval_cases i <;>
        simp [Merkle.padded, Merkle.nodeAt, sampleHashed, enterWitness, leaveWitness,
          OutputSignals.commitment]
    · interval_cases k <;>
        simp [Merkle.padded, Merkle.nodeAt, sampleHashed, enterWitness, leaveWitness,
          OutputSignals.commitment]
  · rcases mem_sampleInputs hi with rfl | ⟨blinding, hb, rfl⟩
    · simp only [Merkle.pathPairs, spentInput, InputSignals.commitment, InputSignals.publicKey,
        ZMod.val_zero, Nat.zero_mod, Nat.zero_ne_one, if_false, List.mem_pair] at hp
      rcases hp with rfl | rfl <;> simp [sampleHashed]
    · simp only [Merkle.pathPairs, emptyInput, InputSignals.commitment, InputSignals.publicKey,
        ZMod.val_zero, Nat.zero_mod, Nat.zero_ne_one, if_false, List.mem_pair] at hp
      simp only [List.mem_cons, List.not_mem_nil, or_false] at hb
      rcases hb with rfl | rfl | rfl <;> rcases hp with rfl | rfl <;> simp [sampleHashed]

theorem proper_sample : Proper sampleDeployment sampleCalls where
  sender r a o h := by
    rcases List.mem_pair.mp h with h | h <;> obtain ⟨rfl, -, -⟩ := Call.request.inj h <;> decide
  verifier auth v h := by
    rcases List.mem_pair.mp h with h | h <;> cases h
  noCollisions := {
    key := by
      have hone : ∀ i ∈ inputs sampleDeployment sampleCalls, i.inPrivateKey = 1 := by
        intro i hi
        rcases mem_sampleInputs hi with rfl | ⟨blinding, -, rfl⟩ <;> rfl
      rintro _ ⟨i, hi, rfl⟩ _ ⟨j, hj, rfl⟩ _
      rw [hone i hi, hone j hj]
    commitment := fun p hp q hq => List.inj_on_of_nodup_map nodup_sampleOpenings
      (openings_sample p hp) (openings_sample q hq)
    compress := fun p hp q hq => List.inj_on_of_nodup_map nodup_sampleHashed
      (pairs_sample p hp) (pairs_sample q hq)
    notEmpty := by
      rw [inputs_sample]
      exact sample_notEmpty }

/-- The note of 5 is spent, 2 are paid out, and the balance covers the notes that are left. -/
theorem pool_is_solvent_payout : ∃ s0,
    Pool.constructor (.account 1) (.contract 2) (.contract 3) (.contract 4) 1000 (.account 5) 30 2 =
      .ok s0 ∧
    let env := run (exec sampleDeployment) sampleCalls ⟨s0, [], fun _ => 100⟩
    accepted (exec sampleDeployment) sampleCalls ⟨s0, [], fun _ => 100⟩ = sampleCalls ∧
    env.pool.spent spentInput.nullifier.val = true ∧ sampleDeployment.balance env = 103 ∧
    (unspentValue Set.univ (enterWitness.outs ++ leaveWitness.outs) env.pool : Int) ≤
      sampleDeployment.balance env := by
  obtain ⟨s0, h0, hfacts⟩ : ∃ s0, Pool.constructor (.account 1) sampleDeployment.tokenAddress
      sampleDeployment.verifierAddress (.contract 4) 1000 (.account 5) 30 2 = .ok s0 ∧
      (accepted (exec sampleDeployment) sampleCalls ⟨s0, [], fun _ => 100⟩).length = 2 ∧
      (run (exec sampleDeployment) sampleCalls ⟨s0, [], fun _ => 100⟩).pool.spent
        spentInput.nullifier.val = true ∧
      sampleDeployment.balance
        (run (exec sampleDeployment) sampleCalls ⟨s0, [], fun _ => 100⟩) = 103 :=
    ⟨_, rfl, by decide +kernel⟩
  obtain ⟨hlength, hspent, hbalance⟩ := hfacts
  have hlog : accepted (exec sampleDeployment) sampleCalls ⟨s0, [], fun _ => 100⟩ = sampleCalls :=
    (accepted_sublist _ _ _).eq_of_length hlength
  have hsolvent := pool_is_solvent sampleDeployment h0 (fun _ => 100) sampleCalls
    (by rw [hlog]; exact proper_sample)
  have hcovered := hsolvent.2.2 Set.univ (Set.subset_univ _)
  rw [hlog, notes_sample] at hcovered
  exact ⟨s0, h0, hlog, hspent, hbalance, hcovered⟩

end Solvency

end Veil
