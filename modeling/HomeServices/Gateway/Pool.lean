import HomeServices.Concurrent.Guarded
import HomeServices.Concurrent.Schedule

/-!
# The channel to the identity service

The gateway's mTLS channel is rebuilt when the X.509 SVID was rotated since it was created. Tasks share
it, behind a lock, with the sequence number it was created under.

* `Channel`, `IdentityChannel`, `World`: what the tasks share, and the source of SVIDs.
* `new`, `client`, `perform`: the two functions, step by step, and their operations.
* `machine`: any number of calls of `client`, beside rotations.
* `Fresh`, `Rely`, `Guarantee`: the sequence number is not newer than the channel; a writer is alone.
* `Steady`: no rotation while `new` is between its handshake and its reading of the sequence number.
* **`clients_fresh`**: in steady runs no client is older than the SVID it was asked for under;
  `stale_client`: a run in which one is.
-/

namespace Gateway.Pool

open Interaction

/-- Errors from channel creation. -/
inductive ChannelError where
  | source (e : String)
  | tls (e : String)
  | transport (e : String)

/-- A connected channel, by the sequence number of the SVID of its handshake. -/
structure Channel where
  svid : ℕ
  deriving DecidableEq

/-- The channel behind its lock, and the sequence number it was created under. -/
structure IdentityChannel where
  channel : Channel
  createdSeq : ℕ
  writer : Option ℕ
  readers : List ℕ

/-- The sequence number of the SVID source, and the channel once it is created. -/
structure World where
  seq : ℕ
  identity : Option IdentityChannel

inductive Op where
  | buildTlsConfig
  | connect
  | updatedLast
  | create (channel : Channel) (createdSeq : ℕ)
  -- the handler's reference to the shared channel
  | identity
  | loadCreatedSeq
  | storeCreatedSeq (seq : ℕ)
  | write
  | dropWrite
  | read
  | dropRead
  | setChannel (channel : Channel)
  | cloneChannel

abbrev Resp : Op → Type
  | .buildTlsConfig => Except ChannelError Unit
  | .connect => Except ChannelError Channel
  | .updatedLast | .loadCreatedSeq => ℕ
  | .cloneChannel => Channel
  | _ => Unit

/-- Whether a call fails, and why. -/
structure Choice where
  fault : Bool := false
  reason : String := ""

/-- An access to the shared channel; there is none before it is created. -/
def World.access {α : Type} (g : World) (f : IdentityChannel → Option (α × IdentityChannel)) :
    Option (α × World) :=
  match g.identity with
  | none => none
  | some c => (f c).map fun r => (r.1, { g with identity := some r.2 })

/-- Execute one operation of the task `i`; `none` while it has to wait. -/
def perform (ch : Choice) (i : ℕ) (g : World) : (o : Op) → Option (Resp o × World)
  | .buildTlsConfig => some (if ch.fault then .error (.tls ch.reason) else .ok (), g)
  -- a new handshake uses the current SVID
  | .connect => some (if ch.fault then .error (.transport ch.reason) else .ok ⟨g.seq⟩, g)
  | .updatedLast => some (g.seq, g)
  | .create channel createdSeq =>
    match g.identity with
    | none => some ((), { g with identity := some ⟨channel, createdSeq, none, []⟩ })
    | some _ => none
  | .identity => g.access fun c => some ((), c)
  | .loadCreatedSeq => g.access fun c => some (c.createdSeq, c)
  | .storeCreatedSeq seq => g.access fun c => some ((), { c with createdSeq := seq })
  | .write => g.access fun c =>
    if c.writer = none ∧ c.readers = [] then some ((), { c with writer := some i }) else none
  | .dropWrite => g.access fun c =>
    if c.writer = some i then some ((), { c with writer := none }) else none
  | .read => g.access fun c =>
    if c.writer = none then some ((), { c with readers := i :: c.readers }) else none
  | .dropRead => g.access fun c =>
    if i ∈ c.readers then some ((), { c with readers := c.readers.erase i }) else none
  | .setChannel channel => g.access fun c =>
    if c.writer = some i then some ((), { c with channel }) else none
  | .cloneChannel => g.access fun c =>
    if c.writer = some i ∨ i ∈ c.readers then some (c.channel, c) else none

/-- Some choice executes the operation this way. -/
def Performs (o : Op) (i : ℕ) (g : World) (r : Resp o) (i' : ℕ) (g' : World) : Prop :=
  i' = i ∧ ∃ ch, perform ch i g o = some (r, g')

/-! ## The two functions -/

inductive Outcome where
  | created
  | client (channel : Channel)
  | failed (e : ChannelError)

/-- Create a new mTLS channel to the identity service. -/
def new : Prog Op Resp Outcome :=
  .call .buildTlsConfig fun
    | .error e => .ret (.failed e)
    | .ok () => .call .connect fun
      | .error e => .ret (.failed e)
      | .ok channel => .call .updatedLast fun createdSeq =>
        .call (.create channel createdSeq) fun _ => .ret .created

/-- The client of the write guard's channel. -/
def clientOfWrite : Prog Op Resp Outcome :=
  .call .cloneChannel fun channel => .call .dropWrite fun _ => .ret (.client channel)

/-- A client of the identity service; the channel is rebuilt first if the SVID has rotated. -/
def client : Prog Op Resp Outcome :=
  .call .identity fun _ =>
  .call .updatedLast fun currentSeq =>
  .call .loadCreatedSeq fun prevSeq =>
  if currentSeq ≠ prevSeq then
    .call .write fun _ =>
    -- another task may have rebuilt already
    .call .loadCreatedSeq fun recheck =>
    if recheck ≠ currentSeq then
      .call .connect fun
        | .error e => .call .dropWrite fun _ => .ret (.failed e)
        | .ok channel => .call (.setChannel channel) fun _ =>
          .call (.storeCreatedSeq currentSeq) fun _ => clientOfWrite
    else clientOfWrite
  else
    .call .read fun _ =>
    .call .cloneChannel fun channel => .call .dropRead fun _ => .ret (.client channel)

/-! ## The tasks -/

abbrev Event := Entry Op Resp ℕ World

abbrev Hist := List Event

abbrev State := Config Op Resp ℕ World Outcome

/-- The SVID is rotated. -/
inductive Env (g : World) : World → Prop
  | rotate {seq : ℕ} : g.seq < seq → Env g { g with seq }

def machine : Machine Op Resp ℕ World Outcome where
  start i l p := l = i ∧ (p = new ∨ p = client)
  step _ o i g r i' g' := Performs o i g r i' g'
  again _ := none
  env := Env

def boot (seq : ℕ) : State := Config.initial { seq, identity := none }

/-- The sequence number that a call read last. -/
def readSeq : Hist → Option ℕ
  | [] => none
  | ⟨.updatedLast, n, _, _, _, _⟩ :: _ => some n
  | _ :: h => readSeq h

/-- What a failed reconnect must leave as it was. -/
def World.stored (g : World) : Option (Channel × ℕ) :=
  g.identity.map fun c => (c.channel, c.createdSeq)

/-- A client is no older than the number its call read; a failed call changed nothing. -/
def Returned (h : Hist) : Outcome → Prop
  | .created => True
  | .client channel => ∃ n, readSeq h = some n ∧ n ≤ channel.svid
  | .failed _ => ∀ e ∈ h, e.post.stored = e.pre.stored

/-! ## What an operation does -/

/-- What an operation of the task `i` does to the shared channel. -/
inductive Effect (i : ℕ) (c : IdentityChannel) : (o : Op) → Resp o → IdentityChannel → Prop
  | identity : Effect i c .identity () c
  | load : Effect i c .loadCreatedSeq c.createdSeq c
  | store {seq : ℕ} : Effect i c (.storeCreatedSeq seq) () { c with createdSeq := seq }
  | write : c.writer = none → Effect i c .write () { c with writer := some i }
  | dropWrite : c.writer = some i → Effect i c .dropWrite () { c with writer := none }
  | read : Effect i c .read () { c with readers := i :: c.readers }
  | dropRead : Effect i c .dropRead () { c with readers := c.readers.erase i }
  | set {channel : Channel} : c.writer = some i → Effect i c (.setChannel channel) () { c with channel }
  | clone : Effect i c .cloneChannel c.channel c

/-- The operation accesses the shared channel. -/
def Op.accesses : Op → Bool
  | buildTlsConfig | connect | updatedLast | create _ _ => false
  | _ => true

theorem access_eq_some {α : Type} {g g' : World} {f : IdentityChannel → Option (α × IdentityChannel)}
    {a : α} : g.access f = some (a, g') ↔
      ∃ c c', g.identity = some c ∧ f c = some (a, c') ∧ g' = { g with identity := some c' } := by
  unfold World.access
  cases g.identity with
  | none => simp
  | some c =>
    constructor
    · intro h
      obtain ⟨⟨a', c'⟩, hf, he⟩ := Option.map_eq_some_iff.mp h
      cases he
      exact ⟨c, c', rfl, hf, rfl⟩
    · rintro ⟨c₀, c', hc, hf, rfl⟩
      cases hc
      exact Option.map_eq_some_iff.mpr ⟨_, hf, rfl⟩

theorem performs_effect {o : Op} (ho : o.accesses = true) {i i' : ℕ} {g g' : World} {r : Resp o}
    (h : Performs o i g r i' g') : ∃ c c', g.identity = some c ∧ Effect i c o r c' ∧
      g' = { g with identity := some c' } := by
  obtain ⟨-, ch, h⟩ := h
  cases o with
  | buildTlsConfig | connect | updatedLast | create => cases ho
  | _ =>
    obtain ⟨c, c', hc, hf, rfl⟩ := access_eq_some.mp h
    refine ⟨c, c', hc, ?_, rfl⟩
    first
      | cases hf
        constructor
      | split_ifs at hf with hcond
        cases hf
        first | exact .write hcond.1 | exact .dropWrite hcond | exact .set hcond | constructor

/-! ## Rely and guarantee -/

/-- The sequence number is not newer than the channel, and the channel not newer than the source. -/
def Fresh (g : World) : Prop :=
  ∀ c, g.identity = some c → c.createdSeq ≤ c.channel.svid ∧ c.channel.svid ≤ g.seq

/-- What a task relies on: channels are replaced by newer ones, and by no other task while it writes. -/
structure Rely (i : ℕ) (g g' : World) : Prop where
  seq : g.seq ≤ g'.seq
  identity : ∀ c, g.identity = some c → ∃ c', g'.identity = some c' ∧ c.channel.svid ≤ c'.channel.svid ∧
    (c.writer = some i → c'.writer = some i ∧ c'.channel = c.channel ∧ c'.createdSeq = c.createdSeq)

def Guarantee (i : ℕ) (g g' : World) : Prop := ∀ j, j ≠ i → Rely j g g'

theorem rely_refl (i : ℕ) (g : World) : Rely i g g :=
  ⟨Nat.le_refl _, fun c hc => ⟨c, hc, Nat.le_refl _, fun h => ⟨h, rfl, rfl⟩⟩⟩

theorem rely_trans (i : ℕ) (g₁ g₂ g₃ : World) (h : Rely i g₁ g₂) (h' : Rely i g₂ g₃) : Rely i g₁ g₃ := by
  refine ⟨h.seq.trans h'.seq, fun c hc => ?_⟩
  obtain ⟨c', hc', hsvid, hwriter⟩ := h.identity c hc
  obtain ⟨c'', hc'', hsvid', hwriter'⟩ := h'.identity c' hc'
  refine ⟨c'', hc'', hsvid.trans hsvid', fun hw => ?_⟩
  obtain ⟨hw', hchannel, hcreated⟩ := hwriter hw
  obtain ⟨hw'', hchannel', hcreated'⟩ := hwriter' hw'
  exact ⟨hw'', hchannel'.trans hchannel, hcreated'.trans hcreated⟩

theorem Rely.at {i : ℕ} {g g' : World} {c c' : IdentityChannel} (h : Rely i g g')
    (hc : g.identity = some c) (hc' : g'.identity = some c') : c.channel.svid ≤ c'.channel.svid ∧
      (c.writer = some i → c'.writer = some i ∧ c'.channel = c.channel ∧ c'.createdSeq = c.createdSeq) := by
  obtain ⟨_, hc'', hkept⟩ := h.identity c hc
  cases hc'.symm.trans hc''
  exact hkept

theorem rely_env {g g' : World} (hI : Fresh g) (h : Env g g') : Fresh g' ∧ ∀ j, Rely j g g' := by
  cases h with
  | rotate hlt =>
    refine ⟨fun c hc => ⟨(hI c hc).1, (hI c hc).2.trans (Nat.le_of_lt hlt)⟩, fun j => ⟨Nat.le_of_lt hlt, ?_⟩⟩
    exact fun c hc => ⟨c, hc, Nat.le_refl _, fun h => ⟨h, rfl, rfl⟩⟩

/-- What a task owes before it replaces the channel or its sequence number. -/
def Owes (i : ℕ) (g : World) (c : IdentityChannel) : Op → Prop
  | .setChannel channel => c.channel.svid ≤ channel.svid ∧ channel.svid ≤ g.seq
  | .storeCreatedSeq seq => c.writer = some i ∧ seq ≤ c.channel.svid
  | _ => True

/-- **An operation that owes nothing keeps the guarantee and the invariant.** -/
theorem kept_of_owes {i : ℕ} {g : World} {c c' : IdentityChannel} {o : Op} {r : Resp o}
    (hI : Fresh g) (hc : g.identity = some c) (he : Effect i c o r c') (howes : Owes i g c o) :
    Guarantee i g { g with identity := some c' } ∧ Fresh { g with identity := some c' } := by
  obtain ⟨hcreated, hseq⟩ := hI c hc
  constructor
  · intro j hj
    refine ⟨Nat.le_refl _, fun c₀ hc₀ => ⟨c', rfl, ?_⟩⟩
    obtain rfl : c = c₀ := Option.some.inj (hc.symm.trans hc₀)
    have halone : c.writer = some i → c.writer ≠ some j := fun hi hj' =>
      hj (Option.some.inj (hj'.symm.trans hi))
    cases he with
    | identity | load | clone | read | dropRead => exact ⟨Nat.le_refl _, fun h => ⟨h, rfl, rfl⟩⟩
    | store => exact ⟨Nat.le_refl _, fun h => (halone howes.1 h).elim⟩
    | write hfree => exact ⟨Nat.le_refl _, fun h => by rw [hfree] at h; cases h⟩
    | dropWrite hw => exact ⟨Nat.le_refl _, fun h => (halone hw h).elim⟩
    | set hw => exact ⟨howes.1, fun h => (halone hw h).elim⟩
  · intro c₀ hc₀
    obtain rfl : c' = c₀ := Option.some.inj hc₀
    cases he with
    | store => exact ⟨howes.2, hseq⟩
    | set => exact ⟨hcreated.trans howes.1, howes.2⟩
    | _ => exact ⟨hcreated, hseq⟩

/-! ## The two functions keep them -/

/-- The machine in which the channel is created under a number that is not newer than its handshake. -/
def freshMachine : Machine Op Resp ℕ World Outcome :=
  { machine with
    step := fun h o i g r i' g' => machine.step h o i g r i' g' ∧
      ∀ channel n, o = .create channel n → n ≤ channel.svid }

abbrev Keeping (i : ℕ) (h : Hist) (g : World) (p : Prog Op Resp Outcome) : Prop :=
  Guarded freshMachine.step (Rely i) (Guarantee i) Fresh (fun h _ _ a => Returned h a) h i g p

variable {i : ℕ} {h : Hist} {g : World}

/-- The rule of operations on the shared channel. -/
theorem keeping_access {o : Op} {k : Resp o → Prog Op Resp Outcome} (ho : o.accesses = true)
    (H : ∀ g₁ c r c', Rely i g g₁ → Fresh g₁ → g₁.identity = some c → Effect i c o r c' →
      Owes i g₁ c o ∧ Keeping i (⟨o, r, i, g₁, i, { g₁ with identity := some c' }⟩ :: h)
        { g₁ with identity := some c' } (k r)) : Keeping i h g (.call o k) := by
  intro g₁ hrely hI r i' g' ⟨hst, _⟩
  obtain ⟨c, c', hc, heffect, rfl⟩ := performs_effect ho hst
  obtain ⟨howes, hnext⟩ := H g₁ c r c' hrely hI hc heffect
  obtain ⟨hguarantee, hI'⟩ := kept_of_owes hI hc heffect howes
  obtain rfl : i' = i := hst.1
  exact ⟨⟨hguarantee, hI'⟩, hnext⟩

/-- The rule of operations that leave the world as it is. -/
theorem keeping_still {o : Op} {k : Resp o → Prog Op Resp Outcome}
    (ho : ∀ g₁ r i' g', Performs o i g₁ r i' g' → g' = g₁)
    (H : ∀ g₁ r, Rely i g g₁ → Fresh g₁ → Performs o i g₁ r i g₁ →
      Keeping i (⟨o, r, i, g₁, i, g₁⟩ :: h) g₁ (k r)) : Keeping i h g (.call o k) := by
  intro g₁ hrely hI r i' g' ⟨hst, _⟩
  obtain rfl := ho g₁ r i' g' hst
  obtain rfl : i' = i := hst.1
  exact ⟨⟨fun j _ => rely_refl j _, hI⟩, H _ r hrely hI hst⟩

theorem still_connect (g₁ : World) (r : Resp .connect) (i' : ℕ) (g' : World)
    (h : Performs .connect i g₁ r i' g') : g' = g₁ := by
  obtain ⟨-, ch, h⟩ := h
  cases h
  rfl

theorem still_updatedLast (g₁ : World) (r : Resp .updatedLast) (i' : ℕ) (g' : World)
    (h : Performs .updatedLast i g₁ r i' g') : g' = g₁ := by
  obtain ⟨-, ch, h⟩ := h
  cases h
  rfl

theorem still_buildTlsConfig (g₁ : World) (r : Resp .buildTlsConfig) (i' : ℕ) (g' : World)
    (h : Performs .buildTlsConfig i g₁ r i' g') : g' = g₁ := by
  obtain ⟨-, ch, h⟩ := h
  cases h
  rfl

theorem svid_of_connect {channel : Channel} {i' : ℕ} {g' : World}
    (h : Performs .connect i g (.ok channel) i' g') : channel.svid = g.seq := by
  obtain ⟨-, ch, h⟩ := h
  simp only [perform, Option.some.injEq, Prod.mk.injEq] at h
  obtain ⟨h, -⟩ := h
  split_ifs at h
  cases h
  rfl

theorem eq_of_updatedLast {n i' : ℕ} {g' : World} (h : Performs .updatedLast i g n i' g') : n = g.seq := by
  obtain ⟨-, ch, h⟩ := h
  cases h
  rfl

/-- A channel that is cloned under the write lock is new enough, if the channel of the guard is. -/
theorem keeping_clientOfWrite {c : IdentityChannel} {n : ℕ} (hc : g.identity = some c)
    (hn : n ≤ c.channel.svid) (hread : readSeq h = some n) : Keeping i h g clientOfWrite := by
  refine keeping_access rfl fun g₁ c₁ r c₁' hrely₁ _ hc₁ he => ?_
  cases he
  refine ⟨trivial, keeping_access rfl fun g₂ c₂ r c₂' _ _ _ _ => ⟨trivial, fun _ _ _ => ?_⟩⟩
  exact ⟨n, hread, hn.trans (hrely₁.at hc hc₁).1⟩

/-- The locks are no part of what is stored. -/
theorem stored_of_effect {c c' : IdentityChannel} (hc : g.identity = some c)
    (hchannel : c'.channel = c.channel) (hcreated : c'.createdSeq = c.createdSeq) :
    World.stored { g with identity := some c' } = g.stored := by
  rw [World.stored, World.stored, hc, Option.map_some, Option.map_some, hchannel, hcreated]

theorem keeping_client : Keeping i [] g client := by
  refine keeping_access rfl fun g₁ c₁ r c₁' _ _ hc₁ he₁ => ⟨trivial, ?_⟩
  cases he₁
  refine keeping_still still_updatedLast fun g₂ n _ _ hst₂ => ?_
  obtain rfl := eq_of_updatedLast hst₂
  refine keeping_access rfl fun g₃ c₃ r c₃' hrely₃ hI₃ hc₃ he₃ => ⟨trivial, ?_⟩
  cases he₃
  split
  · -- the SVID has rotated
    refine keeping_access rfl fun g₄ c₄ r c₄' hrely₄ _ hc₄ he₄ => ⟨trivial, ?_⟩
    cases he₄
    refine keeping_access rfl fun g₅ c₅ r c₅' hrely₅ hI₅ hc₅ he₅ => ⟨trivial, ?_⟩
    obtain ⟨hw₅, -, -⟩ := (hrely₅.at rfl hc₅).2 rfl
    cases he₅
    split
    · refine keeping_still still_connect fun g₆ r hrely₆ hI₆ hst₆ => ?_
      obtain ⟨c₆, hc₆, -, hkept₆⟩ := hrely₆.identity _ rfl
      obtain ⟨hw₆, -, -⟩ := hkept₆ hw₅
      cases r with
      | error e =>
        refine keeping_access rfl fun g₇ c₇ r c₇' _ _ hc₇ he₇ => ⟨trivial, fun _ _ _ => ?_⟩
        cases he₇
        intro e he
        simp only [List.mem_cons, List.not_mem_nil, or_false] at he
        rcases he with rfl | rfl | rfl | rfl | rfl | rfl | rfl
        · exact stored_of_effect hc₇ rfl rfl
        · rfl
        · exact stored_of_effect hc₅ rfl rfl
        · exact stored_of_effect hc₄ rfl rfl
        · exact stored_of_effect hc₃ rfl rfl
        · rfl
        · exact stored_of_effect hc₁ rfl rfl
      | ok channel =>
        have hsvid := svid_of_connect hst₆
        have hnew : g₂.seq ≤ channel.svid := by
          calc g₂.seq ≤ g₃.seq := hrely₃.seq
            _ ≤ g₄.seq := hrely₄.seq
            _ ≤ g₅.seq := hrely₅.seq
            _ ≤ g₆.seq := hrely₆.seq
            _ = channel.svid := hsvid.symm
        refine keeping_access rfl fun g₇ c₇ r c₇' hrely₇ _ hc₇ he₇ => ?_
        obtain ⟨hw₇, hchannel₇, -⟩ := (hrely₇.at hc₆ hc₇).2 hw₆
        cases he₇
        -- the handshake was made after every channel before it
        refine ⟨⟨?_, ?_⟩, ?_⟩
        · rw [hchannel₇, hsvid]
          exact (hI₆ _ hc₆).2
        · rw [hsvid]
          exact hrely₇.seq
        · refine keeping_access rfl fun g₈ c₈ r c₈' hrely₈ _ hc₈ he₈ => ?_
          obtain ⟨hw₈, hchannel₈, -⟩ := (hrely₈.at rfl hc₈).2 hw₇
          cases he₈
          have hn₈ : g₂.seq ≤ c₈.channel.svid := by rw [hchannel₈]; exact hnew
          exact ⟨⟨hw₈, hn₈⟩, keeping_clientOfWrite rfl hn₈ rfl⟩
    · -- another task has rebuilt
      rename_i hsame
      have hn₅ : g₂.seq ≤ c₅.channel.svid := by
        rw [← not_not.mp hsame]
        exact (hI₅ _ hc₅).1
      exact keeping_clientOfWrite rfl hn₅ rfl
  · rename_i hsame
    have hn₃ : g₂.seq ≤ c₃.channel.svid := by
      rw [not_not.mp hsame]
      exact (hI₃ _ hc₃).1
    refine keeping_access rfl fun g₄ c₄ r c₄' hrely₄ _ hc₄ he₄ => ⟨trivial, ?_⟩
    have hsvid₄ := (hrely₄.at rfl hc₄).1
    cases he₄
    refine keeping_access rfl fun g₅ c₅ r c₅' hrely₅ _ hc₅ he₅ => ⟨trivial, ?_⟩
    have hsvid₅ := (hrely₅.at rfl hc₅).1
    cases he₅
    refine keeping_access rfl fun g₆ c₆ r c₆' _ _ _ _ => ⟨trivial, fun _ _ _ => ?_⟩
    exact ⟨g₂.seq, rfl, hn₃.trans (hsvid₄.trans hsvid₅)⟩

theorem keeping_new : Keeping i [] g new := by
  refine keeping_still still_buildTlsConfig fun g₁ r _ _ _ => ?_
  cases r with
  | error e =>
    intro _ _ _ e he
    rw [List.mem_singleton.mp he]
  | ok _ =>
    refine keeping_still still_connect fun g₂ r _ _ hst₂ => ?_
    cases r with
    | error e =>
      intro _ _ _ e he
      simp only [List.mem_cons, List.not_mem_nil, or_false] at he
      rcases he with rfl | rfl <;> rfl
    | ok channel =>
      have hsvid := svid_of_connect hst₂
      refine keeping_still still_updatedLast fun g₃ n hrely₃ _ _ => ?_
      intro g₄ hrely₄ hI₄ r i' g' ⟨hst, hfresh⟩
      obtain ⟨rfl, ch, hperform⟩ := hst
      simp only [perform] at hperform
      split at hperform <;> cases hperform
      rename_i hnone
      refine ⟨⟨fun j _ => ⟨Nat.le_refl _, fun c hc => ?_⟩, fun c hc => ?_⟩, fun _ _ _ => trivial⟩
      · rw [hnone] at hc
        cases hc
      · obtain rfl := Option.some.inj hc
        refine ⟨hfresh channel n rfl, ?_⟩
        calc channel.svid = g₂.seq := hsvid
          _ ≤ g₃.seq := hrely₃.seq
          _ ≤ g₄.seq := hrely₄.seq

theorem returned_of_fresh {seq : ℕ} {c : State} (hc : Reachable freshMachine (boot seq) c) {i : ℕ}
    {t : Thread Op Resp ℕ World Outcome} (ht : c.thread i = some t) {a : Outcome}
    (ha : t.prog = .ret a) : Returned t.hist a := by
  have hempty : Fresh (boot seq).glob := fun c hc => by cases hc
  obtain ⟨hI, hkeeping⟩ := guarded_reachable (Q := fun h _ _ a => Returned h a) rely_refl rely_trans
    (fun i j g g' hij (hg : Guarantee i g g') => hg j (Ne.symm hij)) (fun _ _ hI h => rely_env hI h) (fun _ => rfl) hempty
    (fun i l p g hstart _ => by
      obtain ⟨rfl, rfl | rfl⟩ := hstart
      · exact keeping_new
      · exact keeping_client) (fun _ _ _ _ _ _ _ _ hagain => by cases hagain) hc
  obtain ⟨l, p, h⟩ := t
  obtain rfl : p = .ret a := ha
  exact hkeeping i _ ht c.glob (rely_refl i _) hI

/-! ## Steady runs -/

/-- The task connected in `new` and is about to read the sequence number. -/
def awaiting (t : Thread Op Resp ℕ World Outcome) : Bool :=
  match t.prog, t.hist with
  | .call .updatedLast _, ⟨.connect, .ok _, _, _, _, _⟩ :: _ => true
  | _, _ => false

/-- The SVID is not rotated while a task is between its handshake and that reading. -/
def Steady (c c' : State) : Prop :=
  (∃ i t, c.thread i = some t ∧ awaiting t = true) → c'.glob.seq = c.glob.seq

def SteadyStep (c c' : State) : Prop := Step machine c c' ∧ Steady c c'

/-- Runs in which the SVID is not rotated while `new` is between its handshake and its reading. -/
abbrev SteadilyReachable (c c' : State) : Prop := Relation.ReflTransGen SteadyStep c c'

theorem reachable_of_steadily {c c' : State} (hc : SteadilyReachable c c') : Reachable machine c c' :=
  Relation.ReflTransGen.mono (fun _ _ h => h.1) _ _ hc

/-- What a task waiting to read the number, and one that read it, know of their channel. -/
def Matching (c : State) : Prop := ∀ i t, c.thread i = some t →
  (∀ channel l g l' g' rest, t.hist = ⟨.connect, .ok channel, l, g, l', g'⟩ :: rest →
    awaiting t = true → channel.svid = c.glob.seq) ∧
  ∀ n l₁ g₁ l₁' g₁' channel l g l' g' rest,
    t.hist = ⟨.updatedLast, n, l₁, g₁, l₁', g₁'⟩ :: ⟨.connect, .ok channel, l, g, l', g'⟩ :: rest →
    n = channel.svid

theorem matching_step {c c' : State} (h : Matching c) (hs : SteadyStep c c') : Matching c' := by
  intro i t ht
  obtain ⟨hs, hsteady⟩ := hs
  cases hs.moved ht with
  | stayed hi =>
    refine ⟨fun channel l g l' g' rest hhist hawait => ?_, (h i t hi).2⟩
    rw [hsteady ⟨i, t, hi, hawait⟩]
    exact (h i t hi).1 channel l g l' g' rest hhist hawait
  | spawned =>
    refine ⟨fun _ _ _ _ _ _ hhist => ?_, fun _ _ _ _ _ _ _ _ _ _ _ hhist => ?_⟩
    · cases hhist
    · cases hhist
  | again _ hagain => cases hagain
  | @called l l' o k hist r hi hst =>
    refine ⟨fun channel l g l' g' rest hhist _ => ?_,
      fun n l₁ g₁ l₁' g₁' channel l g l' g' rest hhist => ?_⟩
    · cases hhist
      rw [svid_of_connect hst, still_connect _ _ _ _ hst]
    · cases hhist
      rw [eq_of_updatedLast hst]
      exact ((h i _ hi).1 _ _ _ _ _ _ rfl rfl).symm

theorem matching_reachable {seq : ℕ} {c : State} (hc : SteadilyReachable (boot seq) c) : Matching c := by
  induction hc with
  | refl => exact fun i t ht => by cases ht
  | tail _ hs ih => exact matching_step ih hs

/-- A task creates the channel with the number it read right after it connected. -/
def Meets (h : Hist) : Op → Prop
  | .create channel n => ∃ l₁ g₁ l₁' g₁' l g l' g' rest, h =
      ⟨.updatedLast, n, l₁, g₁, l₁', g₁'⟩ :: ⟨.connect, .ok channel, l, g, l', g'⟩ :: rest
  | _ => True

theorem all_client : client.All fun o => ∀ h, Meets h o := by
  have hwrite : clientOfWrite.All fun o => ∀ h, Meets h o :=
    ⟨fun _ => trivial, fun _ => ⟨fun _ => trivial, fun _ => trivial⟩⟩
  refine ⟨fun _ => trivial, fun _ => ⟨fun _ => trivial, fun n => ⟨fun _ => trivial, fun m => ?_⟩⟩⟩
  dsimp only
  split
  · refine ⟨fun _ => trivial, fun _ => ⟨fun _ => trivial, fun k => ?_⟩⟩
    dsimp only
    split
    · refine ⟨fun _ => trivial, fun r => ?_⟩
      cases r with
      | error e => exact ⟨fun _ => trivial, fun _ => trivial⟩
      | ok channel => exact ⟨fun _ => trivial, fun _ => ⟨fun _ => trivial, fun _ => hwrite⟩⟩
    · exact hwrite
  · exact ⟨fun _ => trivial, fun _ => ⟨fun _ => trivial, fun _ => ⟨fun _ => trivial, fun _ => trivial⟩⟩⟩

theorem meets_thread {seq : ℕ} {c : State} (hc : Reachable machine (boot seq) c) {i : ℕ}
    {t : Thread Op Resp ℕ World Outcome} (ht : c.thread i = some t) :
    Safe machine.step (fun _ _ => True) (fun h _ _ o => Meets h o) (fun _ _ _ => True)
      t.hist t.loc t.prog := by
  refine safe_reachable (M := machine) (fun _ _ _ _ _ => trivial) (fun _ => rfl) ?_
    (fun _ _ _ _ _ hagain => by cases hagain) hc i t ht
  rintro i l p ⟨-, rfl | rfl⟩
  · intro _ _
    refine ⟨trivial, fun r _ _ _ => ?_⟩
    cases r with
    | error e => exact trivial
    | ok _ =>
      intro _ _
      refine ⟨trivial, fun r _ _ _ => ?_⟩
      cases r with
      | error e => exact trivial
      | ok channel =>
        intro _ _
        refine ⟨trivial, fun n _ _ _ _ _ => ⟨?_, fun _ _ _ _ => trivial⟩⟩
        exact ⟨_, _, _, _, _, _, _, _, _, rfl⟩
  · exact safe_of_all_meets (P := fun o => ∀ h, Meets h o) (fun h _ _ _ ho => ho h) all_client

/-- A step of a steady run creates the channel under the number of its handshake. -/
theorem fresh_of_steady {seq : ℕ} {c c' : State} (hc : Reachable machine (boot seq) c)
    (hmatch : Matching c) (hs : Step machine c c') : Step freshMachine c c' := by
  cases hs with
  | env henv => exact .env henv
  | spawn hi hst => exact .spawn hi hst
  | again _ hagain => cases hagain
  | call hi hst =>
    refine .call hi ⟨hst, ?_⟩
    rintro channel n rfl
    obtain ⟨l₁, g₁, l₁', g₁', l, g, l', g', rest, hhist⟩ := (meets_thread hc hi c.glob trivial).1
    exact Nat.le_of_eq ((hmatch _ _ hi).2 _ _ _ _ _ _ _ _ _ _ _ hhist)

/-- **While the SVID is not rotated between the handshake of `new` and its reading of the sequence
number, no client is older than the SVID it was asked for under, and a failed call of `client` leaves
the channel and its number as they were.** -/
theorem clients_fresh {seq : ℕ} {c : State} (hc : SteadilyReachable (boot seq) c) {i : ℕ}
    {t : Thread Op Resp ℕ World Outcome} (ht : c.thread i = some t) :
    (∀ channel, t.prog = .ret (.client channel) → ∃ n, readSeq t.hist = some n ∧ n ≤ channel.svid) ∧
    ∀ e, t.prog = .ret (.failed e) → ∀ entry ∈ t.hist, entry.post.stored = entry.pre.stored := by
  have hfresh : Reachable freshMachine (boot seq) c := by
    clear ht
    induction hc with
    | refl => exact .refl
    | tail hc hs ih => exact ih.tail (fresh_of_steady (reachable_of_steadily hc) (matching_reachable hc) hs.1)
  exact ⟨fun channel ha => returned_of_fresh hfresh ht ha, fun e ha => returned_of_fresh hfresh ht ha⟩

/-! ## Executing calls -/

inductive Request where
  | new
  | client

/-- The executable calls; a rotation moves the source to a later number. -/
def driver : Driver machine Request Choice ℕ where
  start i
    | .new => some (i, new)
    | .client => some (i, client)
  perform ch _ i g o := (perform ch i g o).map fun r => (r.1, i, r.2)
  outside seq g := if g.seq < seq then some { g with seq } else none
  start_ok {i req l p} h := by
    cases req with
    | new => cases h; exact ⟨rfl, Or.inl rfl⟩
    | client => cases h; exact ⟨rfl, Or.inr rfl⟩
  perform_ok {ch h l g o r l' g'} hperform := by
    obtain ⟨⟨r', g''⟩, hr, he⟩ := Option.map_eq_some_iff.mp hperform
    cases he
    exact ⟨rfl, ch, hr⟩
  outside_ok {seq g g'} h := by
    split_ifs at h with hlt
    cases h
    exact .rotate hlt

theorem seq_of_performs {o : Op} {i i' : ℕ} {g g' : World} {r : Resp o} (h : Performs o i g r i' g') :
    g'.seq = g.seq := by
  cases ho : o.accesses with
  | true =>
    obtain ⟨c, c', -, -, rfl⟩ := performs_effect ho h
    rfl
  | false =>
    obtain ⟨-, ch, h⟩ := h
    cases o with
    | create =>
      simp only [perform] at h
      split at h <;> cases h
      rfl
    | buildTlsConfig | connect | updatedLast => cases h; rfl
    | _ => cases ho

theorem steady_of_command {c c' : State} {cmd : Command Request Choice ℕ}
    (hcmd : cmd.target.isSome = true) (h : driver.command c cmd = some c') : Steady c c' := by
  intro _
  cases cmd with
  | outside => cases hcmd
  | start i req =>
    simp only [Driver.command] at h
    split at h <;> cases h
    rfl
  | act i ch =>
    simp only [Driver.command] at h
    split at h
    · split at h <;> cases h
      rename_i hperform
      exact seq_of_performs (driver.perform_ok hperform)
    · cases h
  | again i =>
    simp only [Driver.command] at h
    split at h
    · split at h <;> cases h
      rfl
    · cases h

/-- Calls beside which nothing is rotated are steady. -/
theorem steadily_of_execute {cmds : List (Command Request Choice ℕ)} {c c' : State}
    (hcmds : cmds.all (fun cmd => cmd.target.isSome) = true) (h : driver.execute c cmds = some c') :
    SteadilyReachable c c' :=
  Driver.related_of_execute (fun hcmd h => ⟨Driver.step_of_command h, steady_of_command hcmd h⟩) hcmds h

def act (i n : ℕ) : List (Command Request Choice ℕ) := List.replicate n (.act i {})

/-- The SVID is rotated after the handshake of `new`, before it reads the sequence number. -/
def rotatedInNew : List (Command Request Choice ℕ) :=
  .start 0 .new :: act 0 2 ++ .outside 1 :: act 0 2 ++ .start 1 .client :: act 1 6

/-- **A client whose channel is older than the SVID it was asked for under.** -/
theorem stale_client : ∃ c t channel n, Reachable machine (boot 0) c ∧ c.thread 1 = some t ∧
    t.prog = .ret (.client channel) ∧ readSeq t.hist = some n ∧ ¬ n ≤ channel.svid := by
  obtain ⟨c, hexec, t, ht, hprog, hread⟩ : ∃ c, driver.execute (boot 0) rotatedInNew = some c ∧
      ∃ t, c.thread 1 = some t ∧ t.prog = .ret (.client ⟨0⟩) ∧ readSeq t.hist = some 1 :=
    ⟨_, rfl, _, rfl, rfl, rfl⟩
  exact ⟨c, t, ⟨0⟩, 1, Driver.reachable hexec, ht, hprog, hread, by decide⟩

/-- A client that is asked for after a rotation gets a new channel. -/
theorem clients_fresh_rotated : ∃ c t, SteadilyReachable (boot 0) c ∧ c.thread 1 = some t ∧
    t.prog = .ret (.client ⟨1⟩) ∧ ∃ n, readSeq t.hist = some n ∧ n ≤ 1 := by
  obtain ⟨c₁, c₂, c₃, hnew, hrotate, hclient, t₀, ht₀, hquiet, t, ht, hprog⟩ : ∃ c₁ c₂ c₃,
      driver.execute (boot 0) (.start 0 .new :: act 0 4) = some c₁ ∧
      driver.command c₁ (.outside 1) = some c₂ ∧
      driver.execute c₂ (.start 1 .client :: act 1 10) = some c₃ ∧
      ∃ t₀, c₁.thread 0 = some t₀ ∧ awaiting t₀ = false ∧
        ∃ t, c₃.thread 1 = some t ∧ t.prog = .ret (.client ⟨1⟩) :=
    ⟨_, _, _, rfl, rfl, rfl, _, rfl, rfl, _, rfl, rfl⟩
  have hone : SteadyStep c₁ c₂ := by
    refine ⟨Driver.step_of_command hrotate, fun ⟨i, t, hi, hawait⟩ => ?_⟩
    by_cases hzero : i = 0
    · rw [hzero] at hi
      cases ht₀.symm.trans hi
      rw [hquiet] at hawait
      cases hawait
    · have hnone := Driver.execute_thread (j := i) (fun cmd hcmd htarget => hzero ?_) hnew
      · cases hnone.symm.trans hi
      · have hall : (Command.start 0 .new :: act 0 4).all (fun cmd => cmd.target = some 0) = true := rfl
        have hcmd := of_decide_eq_true (List.all_eq_true.mp hall cmd hcmd)
        exact Option.some.inj (htarget.symm.trans hcmd)
  have hc : SteadilyReachable (boot 0) c₃ :=
    ((steadily_of_execute rfl hnew).tail hone).trans (steadily_of_execute rfl hclient)
  exact ⟨c₃, t, hc, ht, hprog, (clients_fresh hc ht).1 ⟨1⟩ hprog⟩

end Gateway.Pool
