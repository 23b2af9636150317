/-
# The faucet's rate limit

`contracts/faucet`.  The faucet enrols anyone who asks, and mints them the drip if it has a token,
under a cooldown for each address.  A call names the ledger it runs in, and ledgers do not go back.

A grant is an accepted `onboard` or `drip`.  Section 2 says once what an accepted call does
(`exec_ok`): a grant moves the recipient's mark to the current ledger and mints the drip; the
admin's calls move no mark and mint nothing.  Along a run this makes the storage a record of the
grants (`accounts_run`): the mark of an address is its last grant, the mints are those of the
grants, and each grant keeps its distance from the ones before it.  What a window of ledgers can
hold is then arithmetic (`length_le_of_spaced`).  Section 6 is about whose cooldown a call meets:
its recipient's, and nobody else's (`exec_error_of_alike`).

The token and the allowlist answer as they like, but cannot call back: the platform refuses
re-entry.  When one of them fails, the platform drops everything the call wrote.
-/
import Veil.Contract.AspMembership
import Veil.Core.Unsigned

namespace Veil

open Tx Unsigned

/-! ## 1. The contract -/

/-- The contract's `Error`. -/
inductive FaucetError where
  | notInitialized
  | cooldownActive
  | invalidAmount
  | noTokenConfigured
  deriving DecidableEq, Repr

/-- The persistent entries under `DataKey`. -/
structure FaucetStorage where
  admin : Option Address
  token : Option Address
  asp : Option Address
  dripAmount : Option Int
  cooldownLedgers : Option Nat
  lastDrip : Address → Option Nat

/-- `store.set(&DataKey::LastDrip(to), &now)`. -/
def FaucetStorage.setLastDrip (s : FaucetStorage) (recipient : Address) (now : Nat) :
    FaucetStorage :=
  { s with lastDrip := Function.update s.lastDrip recipient (some now) }

structure OnboardEvent where
  recipient : Address
  amount : Int
  leaf : Nat
  deriving DecidableEq, Repr

/-- A mint the token carried out. -/
structure Mint where
  ledger : Nat
  token : Address
  recipient : Address
  amount : Int
  deriving DecidableEq, Repr

/-- What a call runs on: the faucet's entries, its events, the mints so far, and the state `ρ` of
the contracts it calls. -/
structure FaucetEnv (ρ : Type) where
  storage : FaucetStorage
  events : List OnboardEvent
  mints : List Mint
  rest : ρ

/-- The token's `mint` and the allowlist's `insert_leaf`, called by the faucet; `none` if the
callee fails. -/
structure FaucetHost (ρ : Type) where
  mint : (token recipient : Address) → (amount : Int) → ρ → Option ρ
  insertLeaf : (asp : Address) → (leaf : Nat) → ρ → Option ρ

namespace Faucet

/-- Calls of this contract fail with its own errors. -/
abbrev Result (α : Type) := Except (Fault FaucetError) α

def constructor (admin : Address) (token : Option Address) (asp : Address) (dripAmount : Int)
    (cooldownLedgers : Nat) : Result FaucetStorage := do
  ensure (¬(token.isSome = true ∧ dripAmount ≤ 0)) (.contract .invalidAmount)
  .ok { admin := some admin
        token := token
        asp := some asp
        dripAmount := some dripAmount
        cooldownLedgers := some cooldownLedgers
        lastDrip := fun _ => none }

/-- The check on the recipient's mark: the cooldown has not elapsed. -/
def onCooldown (last : Option Nat) (cooldown now : Nat) : Bool :=
  match last with
  | none => false
  | some last => now < saturatingAdd last cooldown

variable {ρ : Type} (host : FaucetHost ρ)

/-- Enforce the cooldown, then mint if a token is configured: the amount minted. -/
def dripWithCooldown (now : Nat) (recipient : Address) (env : FaucetEnv ρ) :
    Result (Int × FaucetEnv ρ) := do
  let cooldown ← okOr env.storage.cooldownLedgers (.contract .notInitialized)
  ensure (onCooldown (env.storage.lastDrip recipient) cooldown now = false)
    (.contract .cooldownActive)
  let storage := env.storage.setLastDrip recipient now
  match storage.token with
  | none => .ok (0, { env with storage := storage })
  | some token => do
    let amount ← okOr storage.dripAmount (.contract .notInitialized)
    let rest ← okOr (host.mint token recipient amount env.rest) .trapped
    .ok (amount, { env with
      storage := storage
      mints := env.mints ++ [⟨now, token, recipient, amount⟩]
      rest := rest })

def onboard (now : Nat) (recipient : Address) (membershipLeaf : Nat) (env : FaucetEnv ρ) :
    Result (FaucetEnv ρ) := do
  let (amount, env) ← dripWithCooldown host now recipient env
  let asp ← okOr env.storage.asp (.contract .notInitialized)
  let rest ← okOr (host.insertLeaf asp membershipLeaf env.rest) .trapped
  .ok { env with events := env.events ++ [⟨recipient, amount, membershipLeaf⟩], rest := rest }

def drip (now : Nat) (recipient : Address) (env : FaucetEnv ρ) : Result (FaucetEnv ρ) := do
  ensure (env.storage.token.isSome = true) (.contract .noTokenConfigured)
  let (_, env) ← dripWithCooldown host now recipient env
  .ok env

def setDrip (auth : Address → Bool) (dripAmount : Int) (cooldownLedgers : Nat)
    (env : FaucetEnv ρ) : Result (FaucetEnv ρ) := do
  ensure (¬dripAmount ≤ 0) (.contract .invalidAmount)
  let admin ← okOr env.storage.admin (.contract .notInitialized)
  requireAuth auth admin
  .ok { env with storage := { env.storage with
    dripAmount := some dripAmount
    cooldownLedgers := some cooldownLedgers } }

def updateAdmin (auth : Address → Bool) (newAdmin : Address) (env : FaucetEnv ρ) :
    Result (FaucetEnv ρ) := do
  let admin ← okOr env.storage.admin (.contract .notInitialized)
  requireAuth auth admin
  .ok { env with storage := { env.storage with admin := some newAdmin } }

/-- The entry points that can write, with their arguments. -/
inductive Invocation where
  | onboard (recipient : Address) (membershipLeaf : Nat)
  | drip (recipient : Address)
  | setDrip (dripAmount : Int) (cooldownLedgers : Nat)
  | updateAdmin (newAdmin : Address)

/-- A call in a ledger, with the authorisations it carries. -/
structure Call where
  ledger : Nat
  auth : Address → Bool
  invocation : Invocation

def exec (c : Call) (env : FaucetEnv ρ) : Result (FaucetEnv ρ) :=
  match c.invocation with
  | .onboard recipient leaf => onboard host c.ledger recipient leaf env
  | .drip recipient => drip host c.ledger recipient env
  | .setDrip amount cooldown => setDrip c.auth amount cooldown env
  | .updateAdmin newAdmin => updateAdmin c.auth newAdmin env

/-! ## 2. What an accepted call does -/

/-- Whom the call asks a grant for. -/
def Call.recipient (c : Call) : Option Address :=
  match c.invocation with
  | .onboard recipient _ => some recipient
  | .drip recipient => some recipient
  | .setDrip _ _ => none
  | .updateAdmin _ => none

/-- The mint of a grant to `a`, under these settings. -/
def mintFor (s : FaucetStorage) (now : Nat) (a : Address) : Option Mint :=
  s.token.bind fun token => s.dripAmount.map fun amount => ⟨now, token, a, amount⟩

/-- **A grant.**  The recipient was off cooldown; their mark moves and the drip is minted. -/
structure Grants (env : FaucetEnv ρ) (now : Nat) (a : Address) (env' : FaucetEnv ρ) : Prop where
  released : ∃ cooldown, env.storage.cooldownLedgers = some cooldown ∧
    onCooldown (env.storage.lastDrip a) cooldown now = false
  storage : env'.storage = env.storage.setLastDrip a now
  mints : env'.mints = env.mints ++ (mintFor env.storage now a).toList

/-- **No grant.**  At most the settings move, and a new drip is positive. -/
structure Reconfigures (env env' : FaucetEnv ρ) : Prop where
  token : env'.storage.token = env.storage.token
  lastDrip : env'.storage.lastDrip = env.storage.lastDrip
  dripAmount : env'.storage.dripAmount = env.storage.dripAmount ∨
    ∃ amount, 0 < amount ∧ env'.storage.dripAmount = some amount
  mints : env'.mints = env.mints

theorem Reconfigures.refl (env : FaucetEnv ρ) : Reconfigures env env := ⟨rfl, rfl, .inl rfl, rfl⟩

variable {host} {env env' : FaucetEnv ρ} {now : Nat} {a : Address}

theorem dripWithCooldown_ok {amount : Int}
    (h : dripWithCooldown host now a env = .ok (amount, env')) : Grants env now a env' := by
  obtain ⟨cooldown, hcooldown, h⟩ := bind_eq_ok.mp h
  obtain ⟨_, hreleased, h⟩ := bind_eq_ok.mp h
  have hreleased : ∃ cooldown, env.storage.cooldownLedgers = some cooldown ∧
      onCooldown (env.storage.lastDrip a) cooldown now = false :=
    ⟨cooldown, okOr_eq_ok.mp hcooldown, ensure_eq_ok.mp hreleased⟩
  -- The mark is written before the token is read, and leaves the settings alone.
  have hsettings : (env.storage.setLastDrip a now).token = env.storage.token ∧
      (env.storage.setLastDrip a now).dripAmount = env.storage.dripAmount := ⟨rfl, rfl⟩
  dsimp only at h
  rw [hsettings.1, hsettings.2] at h
  cases htoken : env.storage.token with
  | none =>
    rw [htoken] at h
    cases h
    exact ⟨hreleased, rfl, by simp [mintFor, htoken]⟩
  | some token =>
    rw [htoken] at h
    obtain ⟨minted, hminted, h⟩ := bind_eq_ok.mp h
    obtain ⟨rest, -, h⟩ := bind_eq_ok.mp h
    cases h
    exact ⟨hreleased, rfl, by simp [mintFor, htoken, okOr_eq_ok.mp hminted]⟩

theorem exec_ok {c : Call} (h : exec host c env = .ok env') :
    (∃ a, c.recipient = some a ∧ Grants env c.ledger a env') ∨
      c.recipient = none ∧ Reconfigures env env' := by
  obtain ⟨ledger, auth, invocation⟩ := c
  cases invocation with
  | onboard a leaf =>
    obtain ⟨⟨amount, granted⟩, hgrant, h⟩ := bind_eq_ok.mp h
    obtain ⟨asp, -, h⟩ := bind_eq_ok.mp h
    obtain ⟨rest, -, h⟩ := bind_eq_ok.mp h
    cases h
    obtain ⟨hreleased, hstorage, hmints⟩ := dripWithCooldown_ok hgrant
    exact .inl ⟨a, rfl, hreleased, hstorage, hmints⟩
  | drip a =>
    obtain ⟨_, -, h⟩ := bind_eq_ok.mp h
    obtain ⟨⟨amount, granted⟩, hgrant, h⟩ := bind_eq_ok.mp h
    cases h
    exact .inl ⟨a, rfl, dripWithCooldown_ok hgrant⟩
  | setDrip amount cooldown =>
    obtain ⟨_, hpos, h⟩ := bind_eq_ok.mp h
    obtain ⟨admin, -, h⟩ := bind_eq_ok.mp h
    obtain ⟨_, -, h⟩ := bind_eq_ok.mp h
    cases h
    exact .inr ⟨rfl, rfl, rfl, .inr ⟨amount, not_le.mp (ensure_eq_ok.mp hpos), rfl⟩, rfl⟩
  | updateAdmin newAdmin =>
    obtain ⟨admin, -, h⟩ := bind_eq_ok.mp h
    obtain ⟨_, -, h⟩ := bind_eq_ok.mp h
    cases h
    exact .inr ⟨rfl, rfl, rfl, .inl rfl, rfl⟩

/-! ## 3. The grants of a run -/

/-- A grant, with the storage it was made on. -/
structure Grant where
  recipient : Address
  ledger : Nat
  storage : FaucetStorage

/-- What the grant minted. -/
def Grant.mint (g : Grant) : Option Mint := mintFor g.storage g.ledger g.recipient

/-- The later grant respects the cooldown in force when it is made. -/
def Apart (g g' : Grant) : Prop :=
  g.ledger ≤ g'.ledger ∧ ∃ cooldown, g'.storage.cooldownLedgers = some cooldown ∧
    min (g.ledger + cooldown) u32Max ≤ g'.ledger

/-- The grant of a call, if it asks for one and is accepted. -/
def grantOf (host : FaucetHost ρ) (v : FaucetEnv ρ × Call) : Option Grant :=
  v.2.recipient.bind fun a =>
    if (exec host v.2 v.1).isOk then some ⟨a, v.2.ledger, v.1.storage⟩ else none

/-- The grants of a run, in order. -/
def grants (host : FaucetHost ρ) (calls : List Call) (start : FaucetEnv ρ) : List Grant :=
  (visits (exec host) calls start).filterMap (grantOf host)

def grantsTo (host : FaucetHost ρ) (a : Address) (calls : List Call) (start : FaucetEnv ρ) :
    List Grant :=
  (grants host calls start).filter (·.recipient = a)

theorem grantOf_error {c : Call} {e : Fault FaucetError} (h : exec host c env = .error e) :
    grantOf host (env, c) = none := by
  cases hc : c.recipient <;> simp [grantOf, hc, h, Except.isOk, Except.toBool]

/-- **A call is a grant or it is none**, failed calls included. -/
theorem step_cases (host : FaucetHost ρ) (c : Call) (env : FaucetEnv ρ) :
    (∃ a, grantOf host (env, c) = some ⟨a, c.ledger, env.storage⟩ ∧
      Grants env c.ledger a (commit (exec host c env) env)) ∨
    grantOf host (env, c) = none ∧ Reconfigures env (commit (exec host c env) env) := by
  cases h : exec host c env with
  | error e => exact .inr ⟨grantOf_error h, .refl env⟩
  | ok env' =>
    rcases exec_ok h with ⟨a, ha, hgrants⟩ | ⟨hnone, hkeeps⟩
    · exact .inl ⟨a, by simp [grantOf, h, ha, Except.isOk, Except.toBool], hgrants⟩
    · exact .inr ⟨by simp [grantOf, hnone], hkeeps⟩

theorem grants_concat (host : FaucetHost ρ) (calls : List Call) (c : Call) (start : FaucetEnv ρ) :
    grants host (calls ++ [c]) start =
      grants host calls start ++ (grantOf host (run (exec host) calls start, c)).toList := by
  rw [grants, visits_concat, List.filterMap_append, grants]
  cases h : grantOf host (run (exec host) calls start, c) <;> simp [h]

/-- A grant is made in the ledger of a call, on the storage that call finds. -/
theorem exists_of_mem_grants {calls : List Call} {start : FaucetEnv ρ} {g : Grant}
    (hg : g ∈ grants host calls start) : ∃ before c after, calls = before ++ c :: after ∧
      g.ledger = c.ledger ∧ g.storage = (run (exec host) before start).storage := by
  obtain ⟨⟨env, c⟩, hv, hgrant⟩ := List.mem_filterMap.mp hg
  obtain ⟨before, after, hcalls, rfl⟩ := exists_of_mem_visits hv
  refine ⟨before, c, after, hcalls, ?_⟩
  rcases step_cases host c (run (exec host) before start) with ⟨a, ha, -⟩ | ⟨hnone, -⟩
  · rw [ha] at hgrant
    cases hgrant
    exact ⟨rfl, rfl⟩
  · rw [hnone] at hgrant
    cases hgrant

/-! ## 4. The storage is a record of the grants -/

theorem onCooldown_eq_true {last : Option Nat} {cooldown : Nat} :
    onCooldown last cooldown now = true ↔ ∃ t, last = some t ∧ now < min (t + cooldown) u32Max := by
  cases last <;> simp [onCooldown, saturatingAdd]

/-- **The accounts.**  An address's mark is its last grant, its grants keep their distance, and
what was minted is what the grants minted. -/
structure Accounts (granted : List Grant) (env : FaucetEnv ρ) : Prop where
  last : ∀ a, env.storage.lastDrip a =
    (granted.filter (·.recipient = a)).getLast?.map Grant.ledger
  apart : ∀ a, (granted.filter (·.recipient = a)).Pairwise Apart
  mints : env.mints = granted.filterMap Grant.mint

variable {granted : List Grant}

/-- Off cooldown since the last grant is off cooldown since every grant. -/
theorem apart_of_released {l : List Grant} {s : FaucetStorage} {cooldown : Nat}
    (hl : l.Pairwise Apart) (hle : ∀ g ∈ l, g.ledger ≤ now)
    (hcooldown : s.cooldownLedgers = some cooldown)
    (hreleased : onCooldown (l.getLast?.map Grant.ledger) cooldown now = false) :
    ∀ g ∈ l, Apart g ⟨a, now, s⟩ := by
  intro g hg
  refine ⟨hle g hg, cooldown, hcooldown, ?_⟩
  obtain ⟨l, last, rfl⟩ := (List.eq_nil_or_concat' l).resolve_left (List.ne_nil_of_mem hg)
  have hlast : min (last.ledger + cooldown) u32Max ≤ now := by
    rw [List.getLast?_concat] at hreleased
    exact not_lt.mp (of_decide_eq_false hreleased)
  have hg' : g.ledger ≤ last.ledger := by
    rcases List.mem_append.mp hg with hg | hg
    · exact ((List.pairwise_append.mp hl).2.2 g hg last List.mem_cons_self).1
    · rw [List.mem_singleton.mp hg]
  exact (min_le_min_right u32Max (Nat.add_le_add_right hg' cooldown)).trans hlast

theorem Accounts.grant (h : Accounts granted env) (hgrant : Grants env now a env')
    (hle : ∀ g ∈ granted, g.ledger ≤ now) :
    Accounts (granted ++ [⟨a, now, env.storage⟩]) env' := by
  obtain ⟨⟨cooldown, hcooldown, hreleased⟩, hstorage, hmints⟩ := hgrant
  rw [h.last a] at hreleased
  refine ⟨fun b => ?_, fun b => ?_, ?_⟩
  · rw [hstorage, FaucetStorage.setLastDrip, List.filter_append]
    by_cases hb : b = a
    · simp [hb]
    · simp [hb, Ne.symm hb, h.last b]
  · rw [List.filter_append]
    by_cases hb : b = a
    · subst hb
      refine List.pairwise_append.mpr ⟨h.apart b, by simp, fun g hg g' hg' => ?_⟩
      obtain rfl : g' = ⟨b, now, env.storage⟩ := by simpa using hg'
      exact apart_of_released (h.apart b) (fun g hg => hle g (List.mem_of_mem_filter hg))
        hcooldown hreleased g hg
    · simpa [Ne.symm hb] using h.apart b
  · rw [hmints, h.mints, List.filterMap_append]
    cases hm : mintFor env.storage now a <;> simp [Grant.mint, hm]

theorem Accounts.keep (h : Accounts granted env) (hkeeps : Reconfigures env env') :
    Accounts granted env' :=
  ⟨fun a => by rw [hkeeps.lastDrip, h.last a], h.apart, by rw [hkeeps.mints, h.mints]⟩

/-- **The run lemma.**  In a run whose ledgers do not go back, the storage stays the record of the
grants made so far. -/
theorem accounts_run {calls : List Call} {start : FaucetEnv ρ} (hstart : Accounts [] start)
    (hcalls : calls.Pairwise fun c c' => c.ledger ≤ c'.ledger) :
    Accounts (grants host calls start) (run (exec host) calls start) := by
  induction calls using List.reverseRecOn with
  | nil => exact hstart
  | append_singleton calls c ih =>
    obtain ⟨hcalls, -, hlast⟩ := List.pairwise_append.mp hcalls
    rw [grants_concat, run_concat]
    rcases step_cases host c (run (exec host) calls start) with ⟨a, ha, hgrant⟩ | ⟨hnone, hkeeps⟩
    · rw [ha]
      refine (ih hcalls).grant hgrant fun g hg => ?_
      obtain ⟨before, d, after, rfl, hledger, -⟩ := exists_of_mem_grants hg
      rw [hledger]
      exact hlast d (by simp) c List.mem_cons_self
    · rw [hnone, Option.toList_none, List.append_nil]
      exact (ih hcalls).keep hkeeps

/-- The settings of a faucet with this token: a token comes with a positive drip. -/
def Priced (token : Option Address) (s : FaucetStorage) : Prop :=
  s.token = token ∧ (token.isSome = true → ∃ amount, 0 < amount ∧ s.dripAmount = some amount)

theorem priced_run {calls : List Call} {start : FaucetEnv ρ} {token : Option Address}
    (hstart : Priced token start.storage) :
    Priced token (run (exec host) calls start).storage := by
  refine run_induction (P := fun env : FaucetEnv ρ => Priced token env.storage)
    (fun c _ env env' ⟨htoken, hpriced⟩ h => ?_) hstart
  rcases exec_ok h with ⟨a, -, hgrant⟩ | ⟨-, hkeeps⟩
  · rw [hgrant.storage]
    exact ⟨htoken, hpriced⟩
  · refine ⟨hkeeps.token.trans htoken, fun hsome => ?_⟩
    rcases hkeeps.dripAmount with hsame | hnew
    · rw [hsame]
      exact hpriced hsome
    · exact hnew

/-! ## 5. Windows of ledgers -/

/-- Numbers at least `c` apart, `w + 1` consecutive ones to choose from. -/
theorem length_le_of_spaced {c : Nat} (hc : 0 < c) : ∀ {l : List Nat} {first w : Nat},
    l.Pairwise (fun x y => x + c ≤ y) → (∀ x ∈ l, first ≤ x ∧ x ≤ first + w) →
      l.length ≤ w / c + 1
  | [], _, _, _, _ => by simp
  | [_], _, _, _, _ => by simp
  | x :: y :: l, first, w, hl, hin => by
    obtain ⟨hx, hl⟩ := List.pairwise_cons.mp hl
    have hxy := hx y List.mem_cons_self
    have hfirst := (hin x List.mem_cons_self).1
    have hlast := (hin y (by simp)).2
    -- The rest lies in the window that begins `c` later.
    have hrest : (y :: l).length ≤ (w - c) / c + 1 := by
      have hin' : ∀ z ∈ y :: l, first + c ≤ z ∧ z ≤ first + c + (w - c) := by
        intro z hz
        have h1 := hx z hz
        have h2 := (hin z (List.mem_cons_of_mem _ hz)).2
        omega
      exact length_le_of_spaced hc hl hin'
    rw [Nat.div_eq_sub_div hc (by omega), List.length_cons]
    omega

/-- **The settings stay.**  The cooldown is `c` and the drip `d` in every state the faucet has
between the ledgers `first` and `last`: after calls up to `last`, before calls from `first` on. -/
def Stays (host : FaucetHost ρ) (calls : List Call) (start : FaucetEnv ρ) (first last c : Nat)
    (d : Int) : Prop :=
  ∀ before after, calls = before ++ after → (∀ x ∈ before, x.ledger ≤ last) →
    (∀ x ∈ after, first ≤ x.ledger) →
      (run (exec host) before start).storage.cooldownLedgers = some c ∧
      (run (exec host) before start).storage.dripAmount = some d

/-- The ledgers `first, .., last`. -/
def inWindow (first last ledger : Nat) : Bool := first ≤ ledger ∧ ledger ≤ last

/-- The grants to `a` in a window. -/
def grantsIn (host : FaucetHost ρ) (a : Address) (first last : Nat) (calls : List Call)
    (start : FaucetEnv ρ) : List Grant :=
  (grantsTo host a calls start).filter fun g => inWindow first last g.ledger

/-- The tokens `a` was minted in a window. -/
def received (a : Address) (first last : Nat) (env : FaucetEnv ρ) : Int :=
  ((env.mints.filter fun m => m.recipient = a ∧ inWindow first last m.ledger).map Mint.amount).sum

variable {calls : List Call} {start : FaucetEnv ρ} {first last w c : Nat} {d : Int}

/-- A grant in the window is made on the settings of the window. -/
theorem Stays.grant (hstays : Stays host calls start first last c d)
    (hcalls : calls.Pairwise fun c c' => c.ledger ≤ c'.ledger) {g : Grant}
    (hg : g ∈ grantsIn host a first last calls start) :
    g.storage.cooldownLedgers = some c ∧ g.storage.dripAmount = some d := by
  obtain ⟨hg, hwindow⟩ := List.mem_filter.mp hg
  obtain ⟨hfirst, hlast⟩ := of_decide_eq_true hwindow
  obtain ⟨before, call, after, rfl, hledger, hstorage⟩ :=
    exists_of_mem_grants (List.mem_of_mem_filter hg)
  obtain ⟨-, hafter, hbefore⟩ := List.pairwise_append.mp hcalls
  rw [hledger] at hfirst hlast
  rw [hstorage]
  refine hstays before (call :: after) rfl
    (fun x hx => (hbefore x hx call List.mem_cons_self).trans hlast) fun x hx => ?_
  rcases List.mem_cons.mp hx with rfl | hx
  · exact hfirst
  · exact hfirst.trans ((List.pairwise_cons.mp hafter).1 x hx)

/-- The settings stay while nobody but recipients calls. -/
theorem stays_of_recipients (hcalls : ∀ call ∈ calls, call.recipient.isSome = true)
    (hcooldown : start.storage.cooldownLedgers = some c)
    (hamount : start.storage.dripAmount = some d) (first last : Nat) :
    Stays host calls start first last c d := by
  intro before after hsplit _ _
  refine run_induction (P := fun env : FaucetEnv ρ => env.storage.cooldownLedgers = some c ∧
    env.storage.dripAmount = some d) (fun call hcall env env' hsettings h => ?_)
    ⟨hcooldown, hamount⟩
  have hsome := hcalls call (hsplit ▸ List.mem_append_left after hcall)
  rcases exec_ok h with ⟨b, -, hgrant⟩ | ⟨hnone, -⟩
  · rw [hgrant.storage]
    exact hsettings
  · rw [hnone] at hsome
    cases hsome

/-- The moment a ledger opens. -/
theorem exists_opening (first : Nat) : ∀ {calls : List Call},
    calls.Pairwise (fun c c' => c.ledger ≤ c'.ledger) → ∃ before after, calls = before ++ after ∧
      (∀ x ∈ before, x.ledger < first) ∧ ∀ x ∈ after, first ≤ x.ledger
  | [], _ => ⟨[], [], rfl, by simp, by simp⟩
  | call :: calls, hcalls => by
    obtain ⟨hcall, hcalls⟩ := List.pairwise_cons.mp hcalls
    rcases Nat.lt_or_ge call.ledger first with hlt | hge
    · obtain ⟨before, after, rfl, hbefore, hafter⟩ := exists_opening first hcalls
      exact ⟨call :: before, after, rfl, List.forall_mem_cons.mpr ⟨hlt, hbefore⟩, hafter⟩
    · exact ⟨[], call :: calls, rfl, by simp,
        List.forall_mem_cons.mpr ⟨hge, fun x hx => hge.trans (hcall x hx)⟩⟩

/-- With a token the drip of the window is positive, also when no call falls in it. -/
theorem Stays.drip_pos {token : Option Address} (hstays : Stays host calls start first last c d)
    (hcalls : calls.Pairwise fun c c' => c.ledger ≤ c'.ledger) (hwindow : first ≤ last)
    (hstart : Priced token start.storage) (htoken : token.isSome = true) : 0 < d := by
  obtain ⟨before, after, hsplit, hbefore, hafter⟩ := exists_opening first hcalls
  have hopen := hstays before after hsplit
    (fun x hx => (Nat.le_of_lt (hbefore x hx)).trans hwindow) hafter
  have hpriced : Priced token (run (exec host) before start).storage := priced_run hstart
  obtain ⟨amount, hpos, hamount⟩ := hpriced.2 htoken
  rw [hopen.2] at hamount
  cases hamount
  exact hpos

/-- **The grants of a window.** -/
theorem length_grantsIn_le (hcalls : calls.Pairwise fun c c' => c.ledger ≤ c'.ledger)
    (hapart : (grantsTo host a calls start).Pairwise Apart) (hc : 0 < c)
    (hlast : first + w < u32Max) (hstays : Stays host calls start first (first + w) c d) :
    (grantsIn host a first (first + w) calls start).length ≤ w / c + 1 := by
  have hin : ∀ g ∈ grantsIn host a first (first + w) calls start,
      first ≤ g.ledger ∧ g.ledger ≤ first + w :=
    fun g hg => of_decide_eq_true (List.mem_filter.mp hg).2
  have hspaced : (grantsIn host a first (first + w) calls start).Pairwise
      fun g g' => g.ledger + c ≤ g'.ledger := by
    refine (hapart.filter _).imp_of_mem fun {g g'} _ hg' ⟨_, cooldown, hcooldown, hdist⟩ => ?_
    rw [(hstays.grant hcalls hg').1] at hcooldown
    cases hcooldown
    -- Below the last ledger number the sum cannot have saturated.
    have hle := (hin g' hg').2
    omega
  rw [← List.length_map Grant.ledger]
  exact length_le_of_spaced hc (List.pairwise_map.mpr hspaced) (List.forall_mem_map.mpr hin)

/-- The mints of a window are those of its grants. -/
theorem filter_mints (granted : List Grant) :
    (granted.filterMap Grant.mint).filter
        (fun m => m.recipient = a ∧ inWindow first last m.ledger) =
      ((granted.filter (·.recipient = a)).filter fun g => inWindow first last g.ledger).filterMap
        Grant.mint := by
  rw [List.filter_filterMap, List.filter_filter, List.filterMap_filter]
  congr 1
  funext g
  obtain ⟨b, ledger, s⟩ := g
  cases htoken : s.token <;> cases hamount : s.dripAmount <;>
    simp [Grant.mint, mintFor, htoken, hamount, Option.filter, and_comm]

theorem sum_amounts {token : Option Address} : ∀ {l : List Grant},
    (∀ g ∈ l, g.storage.token = token ∧ g.storage.dripAmount = some d) →
      ((l.filterMap Grant.mint).map Mint.amount).sum = if token.isSome then d * l.length else 0
  | [], _ => by simp
  | g :: l, h => by
    obtain ⟨⟨htoken, hamount⟩, h⟩ := List.forall_mem_cons.mp h
    have ih := sum_amounts h
    cases token with
    | none =>
      have hmint : g.mint = none := by simp [Grant.mint, mintFor, htoken]
      rw [List.filterMap_cons_none hmint]
      exact ih
    | some token =>
      have hmint : g.mint = some ⟨g.ledger, token, g.recipient, d⟩ := by
        simp [Grant.mint, mintFor, htoken, hamount]
      rw [List.filterMap_cons_some hmint, List.map_cons, List.sum_cons, ih, List.length_cons]
      simp only [Option.isSome_some, if_true]
      push_cast
      ring

/-- **The tokens of a window**: the drip for each of its grants, or nothing without a token. -/
theorem received_eq {token : Option Address}
    (haccounts : Accounts (grants host calls start) (run (exec host) calls start))
    (hcalls : calls.Pairwise fun c c' => c.ledger ≤ c'.ledger)
    (hstart : Priced token start.storage) (hstays : Stays host calls start first last c d) :
    received a first last (run (exec host) calls start) =
      if token.isSome then d * (grantsIn host a first last calls start).length else 0 := by
  rw [received, haccounts.mints, filter_mints]
  refine sum_amounts fun g hg => ⟨?_, (hstays.grant hcalls hg).2⟩
  obtain ⟨before, call, after, -, -, hstorage⟩ :=
    exists_of_mem_grants (List.mem_of_mem_filter (List.mem_of_mem_filter hg))
  have hpriced : Priced token (run (exec host) before start).storage := priced_run hstart
  rw [hstorage]
  exact hpriced.1

/-! ## 6. Whose cooldown a call meets -/

theorem dripWithCooldown_cooldownActive (host : FaucetHost ρ) :
    dripWithCooldown host now a env = .error (.contract .cooldownActive) ↔
      ∃ cooldown, env.storage.cooldownLedgers = some cooldown ∧
        onCooldown (env.storage.lastDrip a) cooldown now = true := by
  constructor
  · intro h
    rcases bind_eq_error.mp h with h | ⟨cooldown, hcooldown, h⟩
    · cases (okOr_eq_error.mp h).2
    rcases bind_eq_error.mp h with h | ⟨_, -, h⟩
    · exact ⟨cooldown, okOr_eq_ok.mp hcooldown, by simpa using (ensure_eq_error.mp h).1⟩
    -- Past the check, the settings can be missing and the token can trap.
    dsimp only at h
    split at h
    · cases h
    rcases bind_eq_error.mp h with h | ⟨amount, -, h⟩
    · cases (okOr_eq_error.mp h).2
    rcases bind_eq_error.mp h with h | ⟨rest, -, h⟩
    · cases (okOr_eq_error.mp h).2
    · cases h
  · rintro ⟨cooldown, hcooldown, h⟩
    rw [dripWithCooldown, hcooldown, okOr_some, ok_bind, ensure_neg (by simp [h]), error_bind]

/-- A call for `a` that gets as far as the cooldown check. -/
def Asks (a : Address) (c : Call) (s : FaucetStorage) : Prop :=
  (∃ leaf, c.invocation = .onboard a leaf) ∨ c.invocation = .drip a ∧ s.token.isSome = true

theorem exec_cooldownActive {call : Call} (hasks : Asks a call env.storage) :
    exec host call env = .error (.contract .cooldownActive) ↔
      ∃ cooldown, env.storage.cooldownLedgers = some cooldown ∧
        onCooldown (env.storage.lastDrip a) cooldown call.ledger = true := by
  rw [← dripWithCooldown_cooldownActive host]
  rcases hasks with ⟨leaf, hcall⟩ | ⟨hcall, htoken⟩
  · rw [exec, hcall]
    refine ⟨fun h => ?_, fun h => bind_eq_error.mpr (.inl h)⟩
    rcases bind_eq_error.mp h with h | ⟨⟨amount, granted⟩, -, h⟩
    · exact h
    rcases bind_eq_error.mp h with h | ⟨asp, -, h⟩
    · cases (okOr_eq_error.mp h).2
    rcases bind_eq_error.mp h with h | ⟨rest, -, h⟩
    · cases (okOr_eq_error.mp h).2
    · cases h
  · rw [exec, hcall]
    dsimp only
    rw [drip, ensure_pos htoken, ok_bind]
    refine ⟨fun h => ?_, fun h => bind_eq_error.mpr (.inl h)⟩
    rcases bind_eq_error.mp h with h | ⟨granted, -, h⟩
    · exact h
    · cases h

/-- The states differ, as far as the faucet's storage goes, in the marks of others than `a`. -/
structure AlikeFor (a : Address) (s s' : FaucetStorage) : Prop where
  settings : s' = { s with lastDrip := s'.lastDrip }
  mark : s'.lastDrip a = s.lastDrip a

theorem alikeFor_run {others : List Call}
    (hothers : ∀ call ∈ others, ∃ b, b ≠ a ∧ call.recipient = some b) :
    AlikeFor a env.storage (run (exec host) others env).storage := by
  refine run_induction (P := fun env' : FaucetEnv ρ => AlikeFor a env.storage env'.storage)
    (fun call hcall s s' halike h => ?_) ⟨rfl, rfl⟩
  obtain ⟨b, hb, hrecipient⟩ := hothers call hcall
  rcases exec_ok h with ⟨b', hb', hgrant⟩ | ⟨hnone, -⟩
  · obtain rfl : b = b' := by simpa [hrecipient] using hb'
    rw [hgrant.storage, FaucetStorage.setLastDrip]
    refine ⟨?_, ?_⟩
    · rw [halike.settings]
    · rw [← halike.mark]
      exact Function.update_of_ne hb.symm _ _
  · rw [hrecipient] at hnone
    cases hnone

/-- What the rest of `onboard` needs of the drip. -/
def forEnrolment (p : Int × FaucetEnv ρ) : Int × Option Address × ρ :=
  (p.1, p.2.storage.asp, p.2.rest)

theorem dripWithCooldown_alike (halike : AlikeFor a env.storage env'.storage)
    (hrest : env'.rest = env.rest) :
    (dripWithCooldown host now a env').map forEnrolment =
      (dripWithCooldown host now a env).map forEnrolment := by
  obtain ⟨⟨admin, token, asp, dripAmount, cooldownLedgers, marks⟩, events, mints, rest⟩ := env
  obtain ⟨s', events', mints', rest'⟩ := env'
  obtain ⟨hsettings, hmark⟩ := halike
  dsimp only at hsettings hmark hrest
  rw [hrest, dripWithCooldown, dripWithCooldown, hmark, hsettings]
  dsimp only [FaucetStorage.setLastDrip]
  cases cooldownLedgers with
  | none => rfl
  | some cooldown =>
    rw [okOr_some, ok_bind, ok_bind]
    by_cases hreleased : onCooldown (marks a) cooldown now = false
    · rw [ensure_pos hreleased, ok_bind, ok_bind]
      cases token with
      | none => rfl
      | some token =>
        cases dripAmount with
        | none => rfl
        | some amount =>
          dsimp only
          rw [okOr_some, ok_bind, ok_bind]
          cases host.mint token a amount rest <;> rfl
    · rw [ensure_neg hreleased, error_bind, error_bind]

/-- **Others do not count.**  If only the marks of others differ, a call for `a` is refused in
both states or in neither, and for the same reason. -/
theorem exec_error_of_alike {call : Call} (hcall : call.recipient = some a)
    (halike : AlikeFor a env.storage env'.storage) (hrest : env'.rest = env.rest)
    {e : Fault FaucetError} : exec host call env' = .error e ↔ exec host call env = .error e := by
  obtain ⟨ledger, auth, invocation⟩ := call
  have hdrip : (dripWithCooldown host ledger a env').map forEnrolment =
      (dripWithCooldown host ledger a env).map forEnrolment := dripWithCooldown_alike halike hrest
  have htoken : env'.storage.token = env.storage.token := by rw [halike.settings]
  cases invocation with
  | onboard b leaf =>
    cases hcall
    refine bind_eq_error_congr hdrip fun ⟨amount, granted⟩ ⟨amount', granted'⟩ hsame => ?_
    obtain ⟨-, hasp, hrest⟩ : amount = amount' ∧ granted.storage.asp = granted'.storage.asp ∧
        granted.rest = granted'.rest := by simpa [forEnrolment] using hsame
    dsimp only
    rw [hasp, hrest]
    cases granted'.storage.asp with
    | none => rfl
    | some asp =>
      rw [okOr_some, ok_bind, ok_bind]
      cases host.insertLeaf asp leaf granted'.rest <;> simp [ok_bind, error_bind]
  | drip b =>
    cases hcall
    change drip host ledger a env' = .error e ↔ drip host ledger a env = .error e
    rw [drip, drip, htoken]
    by_cases hsome : env.storage.token.isSome = true
    · rw [ensure_pos hsome, ok_bind, ok_bind]
      exact bind_eq_error_congr hdrip fun p p' _ => by simp
    · rw [ensure_neg hsome, error_bind, error_bind]
  | setDrip amount cooldown => cases hcall
  | updateAdmin newAdmin => cases hcall

theorem exec_error_after_others {others : List Call}
    (hothers : ∀ x ∈ others, ∃ b, b ≠ a ∧ x.recipient = some b) {call : Call}
    (hcall : call.recipient = some a) (rest : ρ) {e : Fault FaucetError} :
    exec host call { run (exec host) others env with rest := rest } = .error e ↔
      exec host call { env with rest := rest } = .error e := by
  have halike : AlikeFor a env.storage (run (exec host) others env).storage := alikeFor_run hothers
  refine exec_error_of_alike hcall ?_ ?_
  · exact ⟨halike.settings, halike.mark⟩
  · rfl

theorem exec_failed_enrolment {call : Call} {leaf : Nat} {amount : Int} {asp : Address}
    (hcall : call.invocation = .onboard a leaf)
    (hminted : dripWithCooldown host call.ledger a env = .ok (amount, env'))
    (hasp : env'.storage.asp = some asp) (hfails : host.insertLeaf asp leaf env'.rest = none) :
    exec host call env = .error .trapped := by
  rw [exec, hcall]
  dsimp only
  rw [onboard, hminted, ok_bind]
  dsimp only
  rw [hasp, okOr_some, ok_bind, hfails, okOr_none, error_bind]

/-! ## 7. The rate limit -/

/-- **The faucet's rate limit** after a run, at the ledgers its calls name. -/
structure RateLimited (host : FaucetHost ρ) (start : FaucetEnv ρ) (calls : List Call) : Prop where
  /-- Of two grants to one address, the later respects the cooldown in force when it is made. -/
  spacing : ∀ a, (grantsTo host a calls start).Pairwise Apart
  /-- What one address gets in a window of `w + 1` ledgers. -/
  window : ∀ a first w c d, first + w < u32Max → 1 ≤ c →
    Stays host calls start first (first + w) c d →
      (grantsIn host a first (first + w) calls start).length ≤ w / c + 1 ∧
      (start.storage.token.isSome = true →
        received a first (first + w) (run (exec host) calls start) ≤
          d * ((w / c + 1 : Nat) : Int)) ∧
      (start.storage.token = none →
        received a first (first + w) (run (exec host) calls start) = 0)
  /-- A call is refused for the cooldown exactly if the last grant to the SAME address is too
  recent. -/
  own : ∀ a call, Asks a call (run (exec host) calls start).storage →
    (exec host call (run (exec host) calls start) = .error (.contract .cooldownActive) ↔
      ∃ g cooldown, (grantsTo host a calls start).getLast? = some g ∧
        (run (exec host) calls start).storage.cooldownLedgers = some cooldown ∧
        call.ledger < min (g.ledger + cooldown) u32Max)
  /-- Calls for others change no verdict on a call for `a`, whatever state the token and the
  allowlist are in. -/
  independent : ∀ a others, (∀ x ∈ others, ∃ b, b ≠ a ∧ x.recipient = some b) →
    ∀ call, call.recipient = some a → ∀ rest e,
      exec host call { run (exec host) (calls ++ others) start with rest := rest } = .error e ↔
        exec host call { run (exec host) calls start with rest := rest } = .error e
  /-- Marks and mints are those of the grants: of accepted calls, and of no others. -/
  records : (∀ a, (run (exec host) calls start).storage.lastDrip a =
      (grantsTo host a calls start).getLast?.map Grant.ledger) ∧
    (run (exec host) calls start).mints = (grants host calls start).filterMap Grant.mint
  /-- A call that fails leaves everything as it was. -/
  rolledBack : ∀ call e, exec host call (run (exec host) calls start) = .error e →
    run (exec host) (calls ++ [call]) start = run (exec host) calls start ∧
      grants host (calls ++ [call]) start = grants host calls start
  /-- An `onboard` whose enrolment fails does so too, after its mint. -/
  enrolment : ∀ call a leaf amount minted asp, call.invocation = .onboard a leaf →
    dripWithCooldown host call.ledger a (run (exec host) calls start) = .ok (amount, minted) →
    minted.storage.asp = some asp → host.insertLeaf asp leaf minted.rest = none →
      run (exec host) (calls ++ [call]) start = run (exec host) calls start

theorem constructor_ok {admin asp : Address} {token : Option Address} {dripAmount : Int}
    {cooldownLedgers : Nat} {storage : FaucetStorage}
    (h : constructor admin token asp dripAmount cooldownLedgers = .ok storage) :
    Priced token storage ∧ ∀ a, storage.lastDrip a = none := by
  obtain ⟨_, hpriced, h⟩ := bind_eq_ok.mp h
  cases h
  refine ⟨⟨rfl, fun hsome => ⟨dripAmount, ?_, rfl⟩⟩, fun _ => rfl⟩
  exact not_le.mp fun hle => ensure_eq_ok.mp hpriced ⟨hsome, hle⟩

theorem received_le {token : Option Address}
    (haccounts : Accounts (grants host calls start) (run (exec host) calls start))
    (hcalls : calls.Pairwise fun c c' => c.ledger ≤ c'.ledger)
    (hstart : Priced token start.storage) (hc : 0 < c) (hlast : first + w < u32Max)
    (hstays : Stays host calls start first (first + w) c d) (htoken : token.isSome = true) :
    received a first (first + w) (run (exec host) calls start) ≤ d * ((w / c + 1 : Nat) : Int) := by
  have hlen := length_grantsIn_le hcalls (haccounts.apart a) hc hlast hstays
  have hpos := hstays.drip_pos hcalls (Nat.le_add_right first w) hstart htoken
  rw [received_eq haccounts hcalls hstart hstays, if_pos htoken]
  exact mul_le_mul_of_nonneg_left (by exact_mod_cast hlen) hpos.le

/-- **The rate limit holds over time**, for every configuration the constructor accepts, whatever
the token and the allowlist answer. -/
theorem faucet_rate_limit {admin asp : Address} {token : Option Address} {dripAmount : Int}
    {cooldownLedgers : Nat} {storage : FaucetStorage} (host : FaucetHost ρ) (rest : ρ)
    (calls : List Call)
    (hconstructed : constructor admin token asp dripAmount cooldownLedgers = .ok storage)
    (hcalls : calls.Pairwise fun c c' => c.ledger ≤ c'.ledger) :
    RateLimited host ⟨storage, [], [], rest⟩ calls := by
  obtain ⟨hpriced, hunmarked⟩ := constructor_ok hconstructed
  have haccounts : Accounts (grants host calls ⟨storage, [], [], rest⟩)
      (run (exec host) calls ⟨storage, [], [], rest⟩) :=
    accounts_run ⟨hunmarked, by simp, rfl⟩ hcalls
  refine ⟨haccounts.apart, fun a first w c d hlast hc hstays => ⟨?_, ?_, ?_⟩, ?_, ?_,
    ⟨haccounts.last, haccounts.mints⟩, ?_, ?_⟩
  · exact length_grantsIn_le hcalls (haccounts.apart a) hc hlast hstays
  · intro htoken
    rw [hpriced.1] at htoken
    exact received_le haccounts hcalls hpriced hc hlast hstays htoken
  · intro hnone
    rw [hpriced.1] at hnone
    rw [received_eq haccounts hcalls hpriced hstays, hnone]
    rfl
  · intro a call hasks
    rw [exec_cooldownActive hasks, haccounts.last a]
    simp only [onCooldown_eq_true, Option.map_eq_some_iff]
    constructor
    · rintro ⟨cooldown, hcooldown, _, ⟨g, hg, rfl⟩, hlt⟩
      exact ⟨g, cooldown, hg, hcooldown, hlt⟩
    · rintro ⟨g, cooldown, hg, hcooldown, hlt⟩
      exact ⟨cooldown, hcooldown, g.ledger, ⟨g, hg, rfl⟩, hlt⟩
  · intro a others hothers call hcall rest e
    rw [run_append]
    exact exec_error_after_others hothers hcall rest
  · intro call e herror
    rw [run_concat, herror, commit_error, grants_concat, grantOf_error herror]
    exact ⟨rfl, List.append_nil _⟩
  · intro call a leaf amount minted asp hcall hminted hasp hfails
    rw [run_concat, exec_failed_enrolment hcall hminted hasp hfails, commit_error]

/-- A token that mints, and an allowlist of one level whose admin is the faucet. -/
def sampleHost : FaucetHost (Option AspState) where
  mint _ _ _ rest := some rest
  insertLeaf _ leaf rest := rest.bind fun s =>
    (ASPMembership.insertLeaf (· = .contract 7) leaf s).toOption.map some

def sampleStart : FaucetEnv (Option AspState) where
  storage :=
    { admin := some (.account 0)
      token := some (.contract 8)
      asp := some (.contract 9)
      dripAmount := some 1000
      cooldownLedgers := some 100
      lastDrip := fun _ => none }
  events := []
  mints := []
  rest := (ASPMembership.constructor (.contract 7) 1).toOption

/-- One recipient asks too early, then with a leaf outside the field, then for the drip alone;
another asks in the same ledger. -/
def sampleCalls : List Call :=
  [⟨10, fun _ => false, .onboard (.account 1) 5⟩,
   ⟨50, fun _ => false, .drip (.account 1)⟩,
   ⟨110, fun _ => false, .onboard (.account 1) bn256Modulus⟩,
   ⟨110, fun _ => false, .drip (.account 1)⟩,
   ⟨110, fun _ => false, .onboard (.account 2) 6⟩]

theorem sample_run_is_rate_limited : RateLimited sampleHost sampleStart sampleCalls ∧
    (grants sampleHost sampleCalls sampleStart).map (fun g => (g.recipient, g.ledger)) =
      [(.account 1, 10), (.account 1, 110), (.account 2, 110)] ∧
    (grantsIn sampleHost (.account 1) 10 110 sampleCalls sampleStart).length ≤ 100 / 100 + 1 ∧
    received (.account 1) 10 110 (run (exec sampleHost) sampleCalls sampleStart) = 2000 := by
  have hconstructed : constructor (.account 0) (some (.contract 8)) (.contract 9) 1000 100 =
      .ok sampleStart.storage := rfl
  have hlimited : RateLimited sampleHost sampleStart sampleCalls :=
    faucet_rate_limit sampleHost sampleStart.rest sampleCalls hconstructed (by simp [sampleCalls])
  have hstays : Stays sampleHost sampleCalls sampleStart 10 (10 + 100) 100 1000 :=
    stays_of_recipients (by simp [sampleCalls, Call.recipient]) rfl rfl 10 110
  refine ⟨hlimited, ?_, (hlimited.window _ 10 100 100 1000 (by decide) (by decide) hstays).1, ?_⟩
  · decide +kernel
  · decide +kernel

end Faucet

end Veil
