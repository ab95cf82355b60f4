/-
  File:      Ruwa/Crypto/SignalReplay.lean
  Subject:   NO REPLAY in a session: when a message that was opened is never opened again.

  A walk to a counter ahead fills the cache with the keys it passes BEFORE the MAC is checked, and
  a MAC that fails leaves the chain where it was. A forged counter can therefore put a key into the
  cache that the chain will derive once more: the message it belongs to opens twice,
  `replay_after_forgery`. Where no walk ends that way the session is safe.

  * `WalkSound` -- a walk that passes a counter ends in a message that opens;
  * `Tracks` -- the invariant of a session: every receiver chain is in step with a window of its
    own, and every window has its own number; `call_tracks` is one call, `calls_tracks` a run;
  * **`no_replay`** -- in a run of sound calls the cached counters are distinct and below their
    chain, and no wire opens twice.
-/
import Ruwa.Crypto.SignalChain

namespace Ruwa.Crypto.Signal

open Ruwa.Library
open Ruwa.Library.Text
open Ruwa.Crypto

variable (P : SignalPrimitives)

/-! ## 1. Runs of one session -/

/-- A call to `SessionCipher`, with the private key it may draw. -/
inductive Call
  | encrypt (fresh : U8Array 32) (plaintext : Bytes)
  | decrypt (fresh : U8Array 32) (wire : Bytes)

def call (state : SessionState) : Call → SessionState
  | .encrypt fresh plaintext => (encrypt P state fresh plaintext).2
  | .decrypt fresh wire => (decrypt P state fresh wire).2

def calls (state : SessionState) (cs : List Call) : SessionState := cs.foldl (call P) state

/-- A session as it is built. -/
def Starts (state : SessionState) : Prop :=
  (∃ p, state = initiateAlice P p) ∨ ∃ p, state = processBob P p

/-- The chain on which a message will be read: the one with its ratchet key, or a new one. -/
def readingChain (state : SessionState) (fresh : U8Array 32) (m : WhisperMessage) :
    Option ReceiverChain :=
  match chainIdx state.receiverChains m.ratchetPub with
  | some idx => state.receiverChains[idx]?
  | none =>
      match dhRatchetStep P state m.ratchetPub fresh with
      | .error _ => none
      | .ok state => state.receiverChains[0]?

/-- The message opens with the key at the end of a walk to its counter. -/
def WalkOpens (localId remoteId : U8Array 32) (rc : ReceiverChain) (m : WhisperMessage) : Prop :=
  (openWith P localId remoteId
    (deriveMessageKeys P (walkTo P.hashing (deriveMessageKeys P) m.counter rc.chainKey).2) m).isOk

/-- **A message that walks past a counter opens**, and none that walks opens at the last index. -/
def WalkSound (localId remoteId : U8Array 32) (rc : ReceiverChain) (m : WhisperMessage) : Prop :=
  ¬ m.counter < rc.chainKey.index → Reaches rc m.counter →
    (rc.chainKey.index < m.counter → WalkOpens P localId remoteId rc m) ∧
    (WalkOpens P localId remoteId rc m → m.counter.toNat + 1 < 2 ^ 32)

instance (localId remoteId : U8Array 32) (rc : ReceiverChain) (m : WhisperMessage) :
    Decidable (WalkSound P localId remoteId rc m) := by
  unfold WalkSound WalkOpens
  infer_instance

/-- What a call must meet: nothing, unless it reads a message on a chain. -/
def Sound (state : SessionState) : Call → Prop
  | .encrypt _ _ => True
  | .decrypt fresh wire =>
      match parseWire P wire with
      | .error _ => True
      | .ok m =>
          match readingChain P state fresh m with
          | none => True
          | some rc => WalkSound P state.localIdentityPub state.remoteIdentityPub rc m

def AllSound (state : SessionState) : List Call → Prop
  | [] => True
  | c :: cs => Sound P state c ∧ AllSound (call P state c) cs

instance (state : SessionState) (c : Call) : Decidable (Sound P state c) := by
  unfold Sound
  split
  · infer_instance
  · split
    · infer_instance
    · split <;> infer_instance

instance decidableAllSound (state : SessionState) :
    (cs : List Call) → Decidable (AllSound P state cs)
  | [] => inferInstanceAs (Decidable True)
  | c :: cs =>
      have := decidableAllSound (call P state c) cs
      inferInstanceAs (Decidable (_ ∧ _))

/-- The call opened its wire. -/
def Accepted (state : SessionState) (fresh : U8Array 32) (wire : Bytes) : Prop :=
  (decrypt P state fresh wire).1.isOk

/-! ## 2. Chains and their windows -/

/-- The first key of the chain that a call adds, if it adds one. -/
def createdBy (state : SessionState) : Call → List (U8Array 32)
  | .encrypt _ _ => []
  | .decrypt fresh wire =>
      match parseWire P wire with
      | .error _ => []
      | .ok m =>
          match chainIdx state.receiverChains m.ratchetPub with
          | some _ => []
          | none =>
              match dhRatchetStep P state m.ratchetPub fresh with
              | .error _ => []
              | .ok state => (state.receiverChains.head?.map fun rc => rc.chainKey.key).toList

/-- The first keys of all receiver chains of a run, in the order in which they were added. -/
def createdIn (state : SessionState) : List Call → List (U8Array 32)
  | [] => []
  | c :: cs => createdBy P state c ++ createdIn (call P state c) cs

def created (state : SessionState) (cs : List Call) : List (U8Array 32) :=
  state.receiverChains.map (fun rc => rc.chainKey.key) ++ createdIn P state cs

/-- A receiver chain is in step with a window under the key with its number. -/
def InStepAs (keys : List (U8Array 32)) (rc : ReceiverChain) (e : Numbered) : Prop :=
  ∃ chainKey, keys[e.1]? = some chainKey ∧ ChainInStep P chainKey e.2 rc

/-- **The invariant of a session.** -/
structure Tracks (localId remoteId : U8Array 32) (keys : List (U8Array 32)) (state : SessionState)
    (ws : List Numbered) : Prop where
  localId_eq : state.localIdentityPub = localId
  remoteId_eq : state.remoteIdentityPub = remoteId
  aligned : List.Forall₂ (InStepAs P keys) state.receiverChains ws
  distinct : (ws.map Prod.fst).Nodup

/-- No window forgets what it has seen; a chain that was added has a number from `n` on. -/
def Later (n : Nat) (ws ws' : List Numbered) : Prop :=
  ∀ e' ∈ ws', n ≤ e'.1 ∨ ∃ e ∈ ws, e.1 = e'.1 ∧ ∀ k, e.2.Seen k → e'.2.Seen k

theorem Later.refl (n : Nat) (ws : List Numbered) : Later n ws ws :=
  fun e he => Or.inr ⟨e, he, rfl, fun _ h => h⟩

theorem Later.trans {n n' : Nat} {ws ws' ws'' : List Numbered} (h : Later n ws ws')
    (h' : Later n' ws' ws'') (hn : n ≤ n') : Later n ws ws'' := by
  intro e'' he''
  rcases h' e'' he'' with hle | ⟨e', he', hnum', hseen'⟩
  · exact Or.inl (Nat.le_trans hn hle)
  · rcases h e' he' with hle | ⟨e, he, hnum, hseen⟩
    · exact Or.inl (hnum' ▸ hle)
    · exact Or.inr ⟨e, he, hnum.trans hnum', fun k hk => hseen' k (hseen k hk)⟩

/-- The chain with this number, as long as it is kept, has seen the counter. -/
def Consumed (number counter : Nat) (ws : List Numbered) : Prop :=
  ∀ e ∈ ws, e.1 = number → e.2.Seen counter

theorem Consumed.later {n number counter : Nat} {ws ws' : List Numbered}
    (h : Consumed number counter ws) (hlater : Later n ws ws') (hn : number < n) :
    Consumed number counter ws' := by
  intro e' he' hnum
  rcases hlater e' he' with hle | ⟨e, he, hnum', hseen⟩
  · omega
  · exact hseen counter (h e he (hnum'.trans hnum))

/-! ## 3. One message -/

section Step

variable {P} {localId remoteId : U8Array 32} {keys : List (U8Array 32)} {state : SessionState}
  {ws : List Numbered} {m : WhisperMessage}

/-- **A sound message on a chain**: it is refused and changes nothing, or it opens, was not seen
    before, and is seen from then on. -/
theorem ChainInStep.sound {chainKey : U8Array 32} {w : SkipWindow} {rc : ReceiverChain}
    (h : ChainInStep P chainKey w rc) (hsound : WalkSound P localId remoteId rc m) :
    (∃ e, onChain P localId remoteId rc m = (.error e, rc)) ∨
    ∃ plaintext rc', onChain P localId remoteId rc m = (.ok plaintext, rc') ∧
      ¬ w.Seen m.counter.toNat ∧
      openWith P localId remoteId (keysAt P chainKey m.counter.toNat) m = .ok plaintext ∧
      ChainInStep P chainKey (w.arrive m.counter.toNat) rc' := by
  unfold SkipWindow.arrive
  by_cases hle : w.next ≤ m.counter.toNat
  · have hahead := mt (h.late_iff m.counter).mp (Nat.not_lt.mpr hle)
    have hnew : ¬ w.Seen m.counter.toNat := fun hs => Nat.not_lt.mpr hle hs.1
    by_cases hreach : Reaches rc m.counter
    · obtain ⟨hpass, hlast⟩ := hsound hahead hreach
      have hopens : WalkOpens P localId remoteId rc m ↔
          (openWith P localId remoteId (keysAt P chainKey m.counter.toNat) m).isOk := by
        obtain ⟨kept, hwalk, -, -⟩ := h.follows.forward (room_counter m.counter) hle
        rw [← counter_eq_index m.counter] at hwalk
        unfold WalkOpens
        rw [hwalk]
        rfl
      have hchain := h.ahead hle hreach localId remoteId
      cases hopen : openWith P localId remoteId (keysAt P chainKey m.counter.toNat) m with
      | error e =>
          -- Nothing was passed: a walk that passes a counter opens.
          have hstay : ¬ rc.chainKey.index < m.counter := by
            intro hlt
            have hok := hopens.mp (hpass hlt)
            rw [hopen] at hok
            cases hok
          rw [hopen] at hchain
          obtain ⟨kept, hlen, hres⟩ := hchain
          have hkept : kept = [] := by
            rw [UInt32.lt_iff_toNat_lt, h.index] at hstay
            exact List.length_eq_zero_iff.mp (by omega)
          rw [hkept, List.append_nil] at hres
          exact Or.inl ⟨e, hres⟩
      | ok plaintext =>
          have hbound := hlast (hopens.mpr (by rw [hopen]; rfl))
          rw [hopen] at hchain
          obtain ⟨rc', hres, hstep, -⟩ := hchain
          rw [SkipWindow.take_forward hle]
          exact Or.inr ⟨plaintext, rc', hres, hnew, rfl, hstep hbound⟩
    · exact Or.inl ⟨_, onChain_out_of_reach hahead hreach localId remoteId⟩
  · by_cases hmiss : m.counter.toNat ∈ w.missing
    · have hchain := h.missing hmiss localId remoteId
      cases hopen : openWith P localId remoteId (keysAt P chainKey m.counter.toNat) m with
      | error e =>
          rw [hopen] at hchain
          exact Or.inl ⟨e, hchain⟩
      | ok plaintext =>
          rw [hopen] at hchain
          obtain ⟨rc', hres, hstep, -⟩ := hchain
          rw [SkipWindow.take_late hmiss]
          exact Or.inr ⟨plaintext, rc', hres, fun hs => hs.2 hmiss, rfl, hstep⟩
    · exact Or.inl ⟨_, h.seen ⟨Nat.not_le.mp hle, hmiss⟩ localId remoteId⟩

/-- Entries with the same number are the same entry. -/
theorem eq_of_number (h : (ws.map Prod.fst).Nodup) {e e' : Numbered} (he : e ∈ ws) (he' : e' ∈ ws)
    (hnum : e.1 = e'.1) : e = e' :=
  List.inj_on_of_nodup_map h he he' hnum

theorem Tracks.number_lt (h : Tracks P localId remoteId keys state ws) {e : Numbered}
    (he : e ∈ ws) : e.1 < keys.length := by
  obtain ⟨rc, -, chainKey, hkey, -⟩ := forall₂_mem_right h.aligned he
  exact (List.getElem?_eq_some_iff.mp hkey).1

/-- A sound message on the chain at `idx`, which has this number and this window. -/
theorem Tracks.decryptAt (h : Tracks P localId remoteId keys state ws) {idx number : Nat}
    {rc : ReceiverChain} {w : SkipWindow} (hrc : state.receiverChains[idx]? = some rc)
    (hw : ws[idx]? = some (number, w)) (hsound : WalkSound P localId remoteId rc m) :
    (∃ e, decryptAt P state idx m = (.error e, state)) ∨
    ∃ plaintext state' ws', decryptAt P state idx m = (.ok plaintext, state') ∧
      Tracks P localId remoteId keys state' ws' ∧ Later keys.length ws ws' ∧
      (∃ chainKey, keys[number]? = some chainKey ∧
        (openWith P localId remoteId (keysAt P chainKey m.counter.toNat) m).isOk) ∧
      ¬ w.Seen m.counter.toNat ∧ Consumed number m.counter.toNat ws' := by
  obtain ⟨hidx, -⟩ := List.getElem?_eq_some_iff.mp hw
  have hmem : (number, w) ∈ ws := List.mem_of_getElem? hw
  obtain ⟨e, he, chainKey, hkey, hstep⟩ := forall₂_getElem? h.aligned hrc
  cases hw.symm.trans he
  rcases hstep.sound hsound with ⟨e, he⟩ | ⟨plaintext, rc', hok, hnew, hopen, hnext⟩
  · exact Or.inl ⟨e, decryptAt_refused P hrc (by rw [h.localId_eq, h.remoteId_eq, he])⟩
  · let ws' := ws.set idx (number, w.arrive m.counter.toNat)
    have hdistinct : (ws'.map Prod.fst).Nodup := map_fst_set hw _ ▸ h.distinct
    have hmem' : (number, w.arrive m.counter.toNat) ∈ ws' := List.mem_set hidx _
    have hchain : onChain P state.localIdentityPub state.remoteIdentityPub rc m =
        (.ok plaintext, rc') := by rw [h.localId_eq, h.remoteId_eq, hok]
    have hat := decryptAt_eq P (m := m) hrc
    rw [hchain] at hat
    refine Or.inr ⟨plaintext, _, ws', hat, ⟨h.localId_eq, h.remoteId_eq, ?_, hdistinct⟩, ?_,
      ⟨chainKey, hkey, by rw [hopen]; rfl⟩, hnew, ?_⟩
    · exact forall₂_set h.aligned idx ⟨chainKey, hkey, hnext⟩
    · intro e' he'
      rcases List.mem_or_eq_of_mem_set he' with hold | rfl
      · exact Or.inr ⟨e', hold, rfl, fun _ hk => hk⟩
      · exact Or.inr ⟨(number, w), hmem, rfl, fun k hk => SkipWindow.seen_arrive.mpr (Or.inr hk)⟩
    · intro e' he' hnum
      cases eq_of_number hdistinct he' hmem' hnum
      exact SkipWindow.seen_arrive.mpr (Or.inl rfl)

/-- A chain that is in step under some keys is so under more keys. -/
theorem InStepAs.append {rc : ReceiverChain} {e : Numbered} (h : InStepAs P keys rc e)
    (more : List (U8Array 32)) : InStepAs P (keys ++ more) rc e := by
  obtain ⟨chainKey, hkey, hin⟩ := h
  exact ⟨chainKey, getElem?_append_of_some hkey, hin⟩

/-- A step puts a new chain in front, with the next number, and drops the oldest. -/
theorem Tracks.dhRatchetStep (h : Tracks P localId remoteId keys state ws)
    {theirNewPub fresh : U8Array 32} {state' : SessionState}
    (hstep : dhRatchetStep P state theirNewPub fresh = .ok state') :
    ∃ chainKey, state'.receiverChains[0]? = some ⟨theirNewPub, ⟨chainKey, 0⟩, []⟩ ∧
      Tracks P localId remoteId (keys ++ [chainKey]) state'
        (((keys.length, SkipWindow.start) :: ws).take MAX_RECEIVER_CHAINS) := by
  unfold Signal.dhRatchetStep at hstep
  split at hstep
  · cases hstep
  · rename_i sendPriv hpriv
    cases hstep
    let chainKey := (ratchetRootStep P state.rootKey (P.x25519.dh sendPriv theirNewPub)).2
    refine ⟨chainKey, rfl, h.localId_eq, h.remoteId_eq, ?_, ?_⟩
    · have hold : List.Forall₂ (InStepAs P (keys ++ [chainKey])) state.receiverChains ws :=
        h.aligned.imp fun _ _ hin => hin.append [chainKey]
      exact List.forall₂_take _
        (.cons ⟨chainKey, List.getElem?_concat_length, chainInStep_start P _ _⟩ hold)
    · rw [List.map_take]
      refine List.Nodup.sublist (List.take_sublist _ _) (List.nodup_cons.mpr ⟨?_, h.distinct⟩)
      intro hmem
      obtain ⟨e, he, hnum⟩ := List.mem_map.mp hmem
      exact Nat.lt_irrefl _ (hnum ▸ h.number_lt he)

/-- What a call that opened its wire tells: under which chain, that the chain had not seen the
    counter, and that it has now. A chain that was added has a number from `n` on. -/
structure OpenedOn (P : SignalPrimitives) (localId remoteId : U8Array 32)
    (keys : List (U8Array 32)) (n : Nat) (ws ws' : List Numbered) (m : WhisperMessage)
    (number : Nat) : Prop where
  opens : ∃ chainKey, keys[number]? = some chainKey ∧
    (openWith P localId remoteId (keysAt P chainKey m.counter.toNat) m).isOk
  unseen : n ≤ number ∨ ∃ e ∈ ws, e.1 = number ∧ ¬ e.2.Seen m.counter.toNat
  seen : Consumed number m.counter.toNat ws'

theorem encrypt_receiving (state : SessionState) (fresh : U8Array 32) (plaintext : Bytes) :
    (encrypt P state fresh plaintext).2.receiverChains = state.receiverChains ∧
      (encrypt P state fresh plaintext).2.localIdentityPub = state.localIdentityPub ∧
      (encrypt P state fresh plaintext).2.remoteIdentityPub = state.remoteIdentityPub := by
  have hfirst : ∀ state', (if state.senderChain.isNone then bobFirstSendStep P state fresh
      else .ok state) = .ok state' → state'.receiverChains = state.receiverChains ∧
        state'.localIdentityPub = state.localIdentityPub ∧
        state'.remoteIdentityPub = state.remoteIdentityPub := by
    intro state' h
    split at h
    · unfold bobFirstSendStep at h
      split at h
      · cases h
      · cases h
        exact ⟨rfl, rfl, rfl⟩
    · cases h
      exact ⟨rfl, rfl, rfl⟩
  unfold encrypt
  split
  · exact ⟨rfl, rfl, rfl⟩
  · rename_i state' h
    split
    · exact hfirst state' h
    · exact hfirst state' h

/-- A sound message, with its chain found or added. -/
theorem Tracks.decryptMessage (h : Tracks P localId remoteId keys state ws) {fresh : U8Array 32}
    {wire : Bytes} (hparse : parseWire P wire = .ok m)
    (hsound : Sound P state (.decrypt fresh wire)) :
    ∃ ws', Tracks P localId remoteId (keys ++ createdBy P state (.decrypt fresh wire))
        (decryptMessage P state fresh m).2 ws' ∧ Later keys.length ws ws' ∧
      ((decryptMessage P state fresh m).1.isOk → ∃ number, OpenedOn P localId remoteId
        (keys ++ createdBy P state (.decrypt fresh wire)) keys.length ws ws' m number) := by
  have hsound' : ∀ rc, readingChain P state fresh m = some rc →
      WalkSound P localId remoteId rc m := by
    intro rc hrc
    simp only [Sound, hparse, hrc, h.localId_eq, h.remoteId_eq] at hsound
    exact hsound
  cases hidx : chainIdx state.receiverChains m.ratchetPub with
  | some idx =>
      have hcreated : createdBy P state (.decrypt fresh wire) = [] := by
        simp only [createdBy, hparse, hidx]
      have hlt : idx < state.receiverChains.length := (List.findIdx?_eq_some_iff_getElem.mp hidx).1
      have hrc := List.getElem?_eq_getElem hlt
      obtain ⟨⟨number, w⟩, hw, -⟩ := forall₂_getElem? h.aligned hrc
      have hread : readingChain P state fresh m = some state.receiverChains[idx] := by
        unfold readingChain
        rw [hidx]
        exact hrc
      have hmsg : Signal.decryptMessage P state fresh m = Signal.decryptAt P state idx m := by
        unfold Signal.decryptMessage
        rw [hidx]
      rw [hcreated, List.append_nil, hmsg]
      rcases h.decryptAt hrc hw (hsound' _ hread) with
        ⟨e, he⟩ | ⟨plaintext, state', ws', hok, hnext, hlater, hopens, hnew, hseen⟩
      · rw [he]
        exact ⟨ws, h, .refl _ _, fun hok => (nomatch hok)⟩
      · rw [hok]
        exact ⟨ws', hnext, hlater, fun _ => ⟨_, hopens,
          Or.inr ⟨_, List.mem_of_getElem? hw, rfl, hnew⟩, hseen⟩⟩
  | none =>
      cases hstep : Signal.dhRatchetStep P state m.ratchetPub fresh with
      | error e =>
          have hcreated : createdBy P state (.decrypt fresh wire) = [] := by
            simp only [createdBy, hparse, hidx, hstep]
          have hmsg : Signal.decryptMessage P state fresh m = (.error e, state) := by
            simp only [Signal.decryptMessage, hidx, hstep]
          rw [hcreated, List.append_nil, hmsg]
          exact ⟨ws, h, .refl _ _, fun hok => (nomatch hok)⟩
      | ok stepped =>
          obtain ⟨chainKey, hfirst, hnew⟩ := h.dhRatchetStep hstep
          have hcreated : createdBy P state (.decrypt fresh wire) = [chainKey] := by
            simp only [createdBy, hparse, hidx, hstep, List.head?_eq_getElem?, hfirst]
            rfl
          have hread : readingChain P state fresh m = some ⟨m.ratchetPub, ⟨chainKey, 0⟩, []⟩ := by
            simp only [readingChain, hidx, hstep, hfirst]
          have hmsg : Signal.decryptMessage P state fresh m = Signal.decryptAt P stepped 0 m := by
            simp only [Signal.decryptMessage, hidx, hstep]
          have hlater₀ : Later keys.length ws
              (((keys.length, SkipWindow.start) :: ws).take MAX_RECEIVER_CHAINS) := by
            intro e he
            rcases List.mem_cons.mp (List.mem_of_mem_take he) with rfl | hold
            · exact Or.inl (Nat.le_refl _)
            · exact Or.inr ⟨e, hold, rfl, fun _ hk => hk⟩
          have hlen : keys.length ≤ (keys ++ [chainKey]).length := by
            rw [List.length_append]
            exact Nat.le_add_right _ _
          rw [hcreated, hmsg]
          rcases hnew.decryptAt hfirst rfl (hsound' _ hread) with
            ⟨e, he⟩ | ⟨plaintext, state', ws', hok, hnext, hlater, hopens, -, hseen⟩
          · rw [he]
            exact ⟨_, hnew, hlater₀, fun hok => (nomatch hok)⟩
          · rw [hok]
            exact ⟨ws', hnext, hlater₀.trans hlater hlen, fun _ =>
              ⟨keys.length, hopens, Or.inl (Nat.le_refl _), hseen⟩⟩

/-- **One sound call**: the invariant goes on, and a wire that opened was new to its chain. -/
theorem call_tracks (h : Tracks P localId remoteId keys state ws) {c : Call}
    (hsound : Sound P state c) :
    ∃ ws', Tracks P localId remoteId (keys ++ createdBy P state c) (call P state c) ws' ∧
      Later keys.length ws ws' ∧
      ∀ fresh wire, c = .decrypt fresh wire → Accepted P state fresh wire → ∃ m number,
        parseWire P wire = .ok m ∧
        OpenedOn P localId remoteId (keys ++ createdBy P state c) keys.length ws ws' m number := by
  cases c with
  | encrypt fresh plaintext =>
      obtain ⟨hchains, hlocal, hremote⟩ := encrypt_receiving (P := P) state fresh plaintext
      refine ⟨ws, ⟨hlocal.trans h.localId_eq, hremote.trans h.remoteId_eq, ?_, h.distinct⟩,
        .refl _ _, fun _ _ hc => (nomatch hc)⟩
      rw [show createdBy P state (.encrypt fresh plaintext) = [] from rfl, List.append_nil]
      show List.Forall₂ _ (encrypt P state fresh plaintext).2.receiverChains ws
      rw [hchains]
      exact h.aligned
  | decrypt fresh wire =>
      cases hparse : parseWire P wire with
      | error e =>
          have hcreated : createdBy P state (.decrypt fresh wire) = [] := by
            simp only [createdBy, hparse]
          have hcall : Signal.decrypt P state fresh wire = (.error e, state) := by
            unfold Signal.decrypt
            rw [hparse]
          refine ⟨ws, ?_, .refl _ _, ?_⟩
          · unfold call
            dsimp only
            rw [hcreated, List.append_nil, hcall]
            exact h
          · rintro _ _ ⟨⟩ hok
            unfold Accepted at hok
            rw [hcall] at hok
            cases hok
      | ok m =>
          have hcall : Signal.decrypt P state fresh wire = decryptMessage P state fresh m := by
            unfold Signal.decrypt
            rw [hparse]
          obtain ⟨ws', hnext, hlater, hopened⟩ := h.decryptMessage hparse hsound
          refine ⟨ws', ?_, hlater, ?_⟩
          · unfold call
            dsimp only
            rw [hcall]
            exact hnext
          · rintro _ _ ⟨⟩ hok
            unfold Accepted at hok
            rw [hcall] at hok
            obtain ⟨number, hon⟩ := hopened hok
            exact ⟨m, number, hparse, hon⟩

end Step

/-! ## 4. A run -/

section Run

variable {P} {localId remoteId : U8Array 32} {keys : List (U8Array 32)} {state : SessionState}
  {ws : List Numbered}

theorem calls_append (state : SessionState) (cs cs' : List Call) :
    calls P state (cs ++ cs') = calls P (calls P state cs) cs' := List.foldl_append

theorem allSound_append {cs cs' : List Call} :
    AllSound P state (cs ++ cs') ↔ AllSound P state cs ∧ AllSound P (calls P state cs) cs' := by
  induction cs generalizing state with
  | nil => exact ⟨fun h => ⟨trivial, h⟩, fun h => h.2⟩
  | cons c cs ih =>
      show Sound P state c ∧ AllSound P (call P state c) (cs ++ cs') ↔ _
      rw [ih]
      exact and_assoc.symm

theorem createdIn_append (state : SessionState) (cs cs' : List Call) :
    createdIn P state (cs ++ cs') =
      createdIn P state cs ++ createdIn P (calls P state cs) cs' := by
  induction cs generalizing state with
  | nil => rfl
  | cons c cs ih =>
      show createdBy P state c ++ createdIn P (call P state c) (cs ++ cs') = _
      rw [ih]
      exact (List.append_assoc _ _ _).symm

/-- **A run of sound calls keeps the invariant.** -/
theorem calls_tracks (h : Tracks P localId remoteId keys state ws) {cs : List Call}
    (hsound : AllSound P state cs) :
    ∃ ws', Tracks P localId remoteId (keys ++ createdIn P state cs) (calls P state cs) ws' ∧
      Later keys.length ws ws' := by
  induction cs generalizing keys state ws with
  | nil =>
      refine ⟨ws, ?_, .refl _ _⟩
      rw [createdIn, List.append_nil]
      exact h
  | cons c cs ih =>
      obtain ⟨mid, hmid, hlater, -⟩ := call_tracks h hsound.1
      obtain ⟨ws', hnext, hlater'⟩ := ih hmid hsound.2
      refine ⟨ws', ?_, hlater.trans hlater' ?_⟩
      · rw [createdIn, ← List.append_assoc]
        exact hnext
      · rw [List.length_append]
        exact Nat.le_add_right _ _

theorem tracks_start (hstart : Starts P state) :
    ∃ ws, Tracks P state.localIdentityPub state.remoteIdentityPub
      (state.receiverChains.map fun rc => rc.chainKey.key) state ws := by
  rcases hstart with ⟨p, rfl⟩ | ⟨p, rfl⟩
  · exact ⟨[], rfl, rfl, .nil, List.nodup_nil⟩
  · refine ⟨[(0, .start)], rfl, rfl, .cons ?_ .nil, List.nodup_singleton _⟩
    exact ⟨_, rfl, chainInStep_start P _ _⟩

/-- The cached counters are distinct, and the chain has passed them. -/
theorem Tracks.cached (h : Tracks P localId remoteId keys state ws) {rc : ReceiverChain}
    (hrc : rc ∈ state.receiverChains) :
    (rc.skippedKeys.map MessageKeys.counter).Nodup ∧
      ∀ k ∈ rc.skippedKeys, k.counter < rc.chainKey.index := by
  obtain ⟨i, hi, rfl⟩ := List.getElem_of_mem hrc
  obtain ⟨⟨number, w⟩, -, chainKey, -, hin⟩ :=
    forall₂_getElem? h.aligned (List.getElem?_eq_getElem hi)
  have hcounter : ∀ j ∈ w.missing, (keysAt P chainKey j).counter.toNat = j :=
    fun j hj => index_key (Nat.lt_trans (w.below j hj) hin.fits)
  rw [hin.follows.cache_eq]
  constructor
  · rw [List.map_map]
    refine List.Nodup.map_on (fun j hj k hk hjk => ?_) w.nodup
    have heq := congrArg UInt32.toNat hjk
    rw [← hcounter j hj, ← hcounter k hk]
    exact heq
  · intro k hk
    obtain ⟨j, hj, rfl⟩ := List.mem_map.mp hk
    rw [UInt32.lt_iff_toNat_lt, hin.index]
    exact (hcounter j hj).symm ▸ w.below j hj

/-- The MAC of a wire verifies under the key of its counter on this chain. -/
def MacVerifies (P : SignalPrimitives) (localId remoteId : U8Array 32) (m : WhisperMessage)
    (chainKey : U8Array 32) : Prop :=
  (computeMessageMac P (keysAt P chainKey m.counter.toNat).macKey remoteId localId m.body).bytes.take
    MAC_TRUNCATION_BYTES = m.mac

/-- What ideal primitives promise about one wire and the chains of one run: its MAC verifies under
    one MAC key only, and different chains have different MAC keys at its counter. -/
structure Ideal (P : SignalPrimitives) (localId remoteId : U8Array 32) (keys : List (U8Array 32))
    (m : WhisperMessage) : Prop where
  mac : ∀ a ∈ keys, ∀ b ∈ keys, MacVerifies P localId remoteId m a →
    MacVerifies P localId remoteId m b →
    (keysAt P a m.counter.toNat).macKey = (keysAt P b m.counter.toNat).macKey
  kdf : (keys.map fun a => (keysAt P a m.counter.toNat).macKey).Nodup

theorem macVerifies_of_opens {m : WhisperMessage} {chainKey : U8Array 32}
    (h : (openWith P localId remoteId (keysAt P chainKey m.counter.toNat) m).isOk) :
    MacVerifies P localId remoteId m chainKey := by
  unfold openWith at h
  dsimp only at h
  split at h
  · cases h
  · rename_i hmac
    exact not_not.mp hmac

/-- Two chains under which one wire opens are the same chain. -/
theorem Ideal.same_chain {m : WhisperMessage} (h : Ideal P localId remoteId keys m) {i j : Nat}
    {a b : U8Array 32} (ha : keys[i]? = some a) (hb : keys[j]? = some b)
    (hopena : (openWith P localId remoteId (keysAt P a m.counter.toNat) m).isOk)
    (hopenb : (openWith P localId remoteId (keysAt P b m.counter.toNat) m).isOk) : i = j := by
  have hkey := h.mac a (List.mem_of_getElem? ha) b (List.mem_of_getElem? hb)
    (macVerifies_of_opens hopena) (macVerifies_of_opens hopenb)
  exact index_of_nodup_map h.kdf ha hb hkey

/-- **No replay.** A session is built, and every call of a run is sound. Then in the state it
    reaches, the counters of each cache are distinct and below the index of their chain; and no
    wire opens at two calls of the run, under ideal primitives. -/
theorem no_replay {start : SessionState} (hstart : Starts P start) {cs : List Call}
    (hsound : AllSound P start cs) :
    (∀ rc ∈ (calls P start cs).receiverChains,
      (rc.skippedKeys.map MessageKeys.counter).Nodup ∧
        ∀ k ∈ rc.skippedKeys, k.counter < rc.chainKey.index) ∧
    ∀ before between after fresh fresh' wire,
      cs = before ++ .decrypt fresh wire :: (between ++ .decrypt fresh' wire :: after) →
      (∀ m, parseWire P wire = .ok m → Ideal P start.localIdentityPub start.remoteIdentityPub
        (created P start cs) m) →
      ¬ (Accepted P (calls P start before) fresh wire ∧
        Accepted P (calls P start (before ++ .decrypt fresh wire :: between)) fresh' wire) := by
  obtain ⟨ws, htracks⟩ := tracks_start hstart
  constructor
  · intro rc hrc
    obtain ⟨ws', htracks', -⟩ := calls_tracks htracks hsound
    exact htracks'.cached hrc
  · rintro before between after fresh fresh' wire rfl hideal ⟨hfirst, hsecond⟩
    -- The run up to the first call, the call, the run in between, and the second call.
    obtain ⟨hbefore, hrest⟩ := allSound_append.mp hsound
    obtain ⟨hcall, hrest⟩ := hrest
    obtain ⟨hbetween, hcall', -⟩ := allSound_append.mp hrest
    obtain ⟨ws₁, h₁, -⟩ := calls_tracks htracks hbefore
    obtain ⟨ws₂, h₂, -, hopened⟩ := call_tracks h₁ hcall
    obtain ⟨m, number, hparse, hon⟩ := hopened fresh wire rfl hfirst
    obtain ⟨ws₃, h₃, hlater⟩ := calls_tracks h₂ hbetween
    obtain ⟨ws₄, h₄, -, hopened'⟩ := call_tracks h₃ hcall'
    have hstate : calls P start (before ++ .decrypt fresh wire :: between) =
        calls P (call P (calls P start before) (.decrypt fresh wire)) between :=
      calls_append start before _
    rw [hstate] at hsecond
    obtain ⟨m', number', hparse', hon'⟩ := hopened' fresh' wire rfl hsecond
    cases hparse.symm.trans hparse'
    obtain ⟨a, ha, hopena⟩ := hon.opens
    obtain ⟨b, hb, hopenb⟩ := hon'.opens
    -- Both keys are among those of the whole run, at their own numbers.
    have hideal' := hideal m hparse
    unfold created at hideal'
    rw [createdIn_append, createdIn, createdIn_append, createdIn] at hideal'
    simp only [← List.append_assoc] at hideal'
    obtain rfl : number = number' := hideal'.same_chain
      (getElem?_append_of_some (getElem?_append_of_some (getElem?_append_of_some ha)))
      (getElem?_append_of_some hb) hopena hopenb
    have hconsumed := hon.seen.later hlater (List.getElem?_eq_some_iff.mp ha).1
    rcases hon'.unseen with hnew | ⟨e, he, hnum, hunseen⟩
    · -- The second call would have to add a chain with the number of the first.
      exact Nat.not_lt.mpr hnew (List.getElem?_eq_some_iff.mp (getElem?_append_of_some ha)).1
    · exact hunseen (hconsumed e he hnum)

end Run

open Known

/-- Bob gets Alice's message twice: it opens once. -/
theorem no_replay_hi :
    ¬ (Accepted primitives bob ratchet₂ hiWire ∧
      Accepted primitives (call primitives bob (.decrypt ratchet₂ hiWire)) ratchet₂ hiWire) := by
  have hsound : AllSound primitives bob [.decrypt ratchet₂ hiWire, .decrypt ratchet₂ hiWire] := by
    decide +kernel
  have hcreated : created primitives bob [.decrypt ratchet₂ hiWire, .decrypt ratchet₂ hiWire] =
      [chain₁] := by decide +kernel
  have hstart : Starts primitives bob := Or.inr ⟨bobParameters, rfl⟩
  refine (no_replay hstart hsound).2 [] [] [] _ _ _ rfl fun m _ => ?_
  rw [hcreated]
  refine ⟨fun a ha b hb _ _ => ?_, List.nodup_singleton _⟩
  rw [List.mem_singleton.mp ha, List.mem_singleton.mp hb]

/-- **A replay that opens.** A forged message with a counter one ahead fails its MAC, and leaves
    the key of Alice's message in the cache while the chain stays before it. Her message then opens
    twice: once by walking, once from the cache. -/
theorem replay_after_forgery :
    let forged := decrypt primitives bob ratchet₂ forgedWire
    let genuine := decrypt primitives forged.2 ratchet₂ hiWire
    let replayed := decrypt primitives genuine.2 ratchet₂ hiWire
    (encrypt primitives alice ratchet₂ hi).1 = .ok ⟨hiWire, .whisper⟩ ∧
      forged.1 = .error .badMac ∧
      forged.2.receiverChains.map (fun rc => (rc.skippedKeys.map MessageKeys.counter,
        rc.chainKey.index)) = [([0], 0)] ∧
      genuine.1 = .ok hi ∧ replayed.1 = .ok hi := by
  decide +kernel

end Ruwa.Crypto.Signal
