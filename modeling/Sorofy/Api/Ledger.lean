import Sorofy.Api.Outbox
import Sorofy.Registry.Ballots

/-!
# The outbox and the registry

The worker submits to the registry, and what it writes down about a submission is all that it
knows.  Here the outbox and the registry run together (`Ledger`): while the worker waits for the
command, the command may send a transaction for the row; a transaction that was sent may land at
any later time, or never; the registry may be called by anybody in between; and the process may be
gone before the command has ended.

The command is trusted in two things.  When it succeeds its transaction has landed, and when it
names an error of the contract its transaction has not, and never will.  What it says otherwise, or
that it says nothing in time, tells nothing.

A row that is submitted is on the registry.  A row that is rejected can be there too: a submission
that nobody saw land is followed by another one, which the registry refuses because the first has
landed.  But none of its submissions has landed whose end was recorded as anything but a failure in
transport (`agrees_with_ledger`).
-/

namespace Sorofy
namespace Api

open Foundation VerifierCore
open History
open Registry (Bytes32)

/-! ## What the command says -/

/-- The command says that it has succeeded. -/
def CliRun.succeeded : CliRun → Bool
  | .exited success _ => success
  | _ => false

/-- The command names an error of the contract. -/
def CliRun.refused : CliRun → Bool
  | .exited false stderr => (contractErrorCode (redact stderr)).isSome
  | _ => false

section Answers

variable {cli : String} {run : CliRun}

theorem submit_eq_ok_iff : (∃ txHash, submit cli run = .ok txHash) ↔ run.succeeded = true := by
  cases run with
  | exited success stderr => cases success <;> simp [submit, CliRun.succeeded, throw, throwThe,
      MonadExceptOf.throw, pure, Except.pure]
  | _ => simp [submit, CliRun.succeeded, throw, throwThe, MonadExceptOf.throw]

/-- A run that neither succeeds nor names an error of the contract is tried again. -/
theorem submit_eq_transient (hsucceeded : run.succeeded = false) (hrefused : run.refused = false) :
    ∃ why, submit cli run = .error (.transient why) := by
  cases run with
  | exited success stderr =>
    cases success with
    | true => cases hsucceeded
    | false =>
      have hnone : contractErrorCode (redact stderr) = none := by
        simpa [CliRun.refused] using hrefused
      refine ⟨lastMeaningfulLine (redact stderr), ?_⟩
      simp [submit, classify, hnone, throw, throwThe, MonadExceptOf.throw]
  | _ => exact ⟨_, rfl⟩

/-- A row becomes submitted when the command has succeeded. -/
theorem statusAfter_eq_submitted {read : AttestationRow} {status : AttestationStatus}
    (h : statusAfter read status (submit cli run) = .submitted) (hpending : status = .pending) :
    run.succeeded = true := by
  cases houtcome : submit cli run with
  | ok txHash => exact submit_eq_ok_iff.1 ⟨txHash, houtcome⟩
  | error why =>
    rw [houtcome] at h
    cases why with
    | permanent why => cases h
    | transient why =>
      simp only [statusAfter] at h
      split_ifs at h
      rw [hpending] at h
      cases h

end Answers

/-! ## The two together -/

variable {Address : Type}

/-- Where a transaction stands: on its way, on the ledger, or never to get there. -/
inductive Fate where
  | flying
  | landed
  | dead
  deriving DecidableEq

/-- A transaction that the command has sent for a row. -/
structure Submission where
  rowId : ℕ
  wasmHash : Bytes32
  inputDigest : Bytes32
  rebuiltHash : Bytes32
  fate : Fate

/-- The digests are those that the row spells. -/
structure Submission.Spelled (submission : Submission) (row : AttestationRow) : Prop where
  wasmHash : Spells row.wasmHash submission.wasmHash.toList
  inputDigest : Spells row.inputDigest submission.inputDigest.toList
  rebuiltHash : Spells row.rebuiltHash submission.rebuiltHash.toList

/-- The call of the registry that is submitted: `invoke_command`. -/
def Submission.call (submission : Submission) (verifier : Address) : Registry.Call Address :=
  .attest verifier submission.wasmHash submission.inputDigest submission.rebuiltHash

/-- Where a transaction stands that the ledger has taken up. -/
def fateOf : Registry.Receipt → Fate
  | .returned _ => .landed
  | _ => .dead

/-- The outbox, the registry, the transactions that were sent, and which of them the running
command has sent. -/
structure Ledger (T : Registry.Token Address) where
  outbox : Outbox
  chain : Registry.Chain T
  sent : Table Submission
  current : Option ℕ

/-- What happens to the two. -/
inductive Ledger.Input (Address : Type) where
  | outbox (input : Outbox.Input)
  | send
  | land (number : ℕ)
  | registry (input : Registry.Input Address)

/-- The input ends what the worker is doing. -/
def Outbox.Input.ends : Outbox.Input → Bool
  | .settle .. => true
  | .crash => true
  | _ => false

/-- The transaction of a command that was refused will not land any more. -/
def drop (sent : Table Submission) : Option ℕ → Table Submission
  | some n => sent.modify n fun submission => { submission with fate := .dead }
  | none => sent

section Machine

variable [DecidableEq Address] {T : Registry.Token Address}

/-- One step of the two. -/
inductive Ledger.Step (host : Host) (cli : String) (registry verifier : Address) :
    Ledger T → Ledger.Input Address → Ledger T → Prop where
  | outbox (s : Ledger T) (input : Outbox.Input) (o : Outbox)
      (hstep : Outbox.Step host cli s.outbox input o) (hgoes : input.ends = false) :
      Step host cli registry verifier s (.outbox input) { s with outbox := o }
  /-- The command has ended. -/
  | settle (s : Ledger T) (id : ℕ) (row : AttestationRow) (run : CliRun) (recorded : Bool)
      (o : Outbox) (hstep : Outbox.Step host cli s.outbox (.settle id row run recorded) o)
      (hsucceeded : run.succeeded = true → ∃ n submission, s.current = some n ∧
        s.sent.get? n = some submission ∧ submission.fate = .landed)
      (hrefused : run.refused = true → ∀ n submission, s.current = some n →
        s.sent.get? n = some submission → submission.fate ≠ .landed) :
      Step host cli registry verifier s (.outbox (.settle id row run recorded))
        { s with
          outbox := o
          sent := if run.refused = true then drop s.sent s.current else s.sent
          current := none }
  /-- The process is gone, and with it the command. -/
  | crash (s : Ledger T) (o : Outbox) (hstep : Outbox.Step host cli s.outbox .crash o) :
      Step host cli registry verifier s (.outbox .crash) { s with outbox := o, current := none }
  /-- The command sends a transaction. -/
  | send (s : Ledger T) (id : ℕ) (row : AttestationRow) (submission : Submission)
      (hbusy : s.outbox.worker = some (id, row)) (hnone : s.current = none)
      (hid : submission.rowId = id) (hrow : submission.Spelled row)
      (hfate : submission.fate = .flying) :
      Step host cli registry verifier s .send
        { s with sent := s.sent.insert submission, current := some s.sent.nextId }
  /-- The ledger takes up a transaction. -/
  | land (s : Ledger T) (n : ℕ) (submission : Submission) (env : Registry.Env Address)
      (receipt : Registry.Receipt) (chain : Registry.Chain T)
      (hsent : s.sent.get? n = some submission) (hflying : submission.fate = .flying)
      (hstep : Registry.Step registry s.chain (.call env (submission.call verifier) receipt)
        chain) :
      Step host cli registry verifier s (.land n)
        { s with
          chain
          sent := s.sent.modify n fun submission => { submission with fate := fateOf receipt } }
  /-- Anything else that happens to the registry. -/
  | registry (s : Ledger T) (input : Registry.Input Address) (chain : Registry.Chain T)
      (hstep : Registry.Step registry s.chain input chain) :
      Step host cli registry verifier s (.registry input) { s with chain }

/-- A new database, and a registry. -/
def Ledger.start (chain : Registry.Chain T) : Ledger T := ⟨.new, chain, .empty, none⟩

/-- A run of the two, from a registry deployed as `s₀`. -/
structure Ledger.Run (host : Host) (cli : String) (registry verifier : Address)
    (cfg : Registry.Config Address) (s₀ : Registry.Chain T)
    (h : List (Transition (Ledger T) (Ledger.Input Address))) (s : Ledger T) : Prop where
  deployed : Registry.Deployed cfg s₀
  path : Path (Ledger.Step host cli registry verifier) (Ledger.start s₀) h s

/-! ## What becomes of a transaction -/

/-- A transaction, later on. -/
structure Submission.Evolves (a b : Submission) : Prop where
  rowId : b.rowId = a.rowId
  wasmHash : b.wasmHash = a.wasmHash
  inputDigest : b.inputDigest = a.inputDigest
  rebuiltHash : b.rebuiltHash = a.rebuiltHash
  fate : a.fate ≠ .flying → b.fate = a.fate

theorem Submission.Evolves.refl (a : Submission) : a.Evolves a :=
  ⟨rfl, rfl, rfl, rfl, fun _ => rfl⟩

theorem Submission.Evolves.trans (a b c : Submission) (hab : a.Evolves b) (hbc : b.Evolves c) :
    a.Evolves c where
  rowId := hbc.rowId.trans hab.rowId
  wasmHash := hbc.wasmHash.trans hab.wasmHash
  inputDigest := hbc.inputDigest.trans hab.inputDigest
  rebuiltHash := hbc.rebuiltHash.trans hab.rebuiltHash
  fate ha := by
    have hb := hab.fate ha
    rw [hbc.fate (hb ▸ ha), hb]

theorem Submission.Evolves.spelled {a b : Submission} {row : AttestationRow} (hab : a.Evolves b)
    (ha : a.Spelled row) : b.Spelled row where
  wasmHash := hab.wasmHash ▸ ha.wasmHash
  inputDigest := hab.inputDigest ▸ ha.inputDigest
  rebuiltHash := hab.rebuiltHash ▸ ha.rebuiltHash

variable {host : Host} {cli : String} {registry verifier : Address} {s t : Ledger T}
variable {input : Ledger.Input Address} {h : List (Transition (Ledger T) (Ledger.Input Address))}

/-- A transaction that has landed, or never will, stays that way. -/
theorem Ledger.Step.sent_grows (hstep : Ledger.Step host cli registry verifier s input t) :
    s.sent.Grows Submission.Evolves t.sent := by
  cases hstep with
  | outbox input o hstep hgoes => exact Table.Grows.refl Submission.Evolves.refl _
  | settle id row run recorded o hstep hsucceeded hrefused =>
    show s.sent.Grows Submission.Evolves (if run.refused = true then drop s.sent s.current else
      s.sent)
    split_ifs with hrun
    · cases hcurrent : s.current with
      | none => exact Table.Grows.refl Submission.Evolves.refl _
      | some n =>
        refine Table.Grows.modify Submission.Evolves.refl fun a ha => ⟨rfl, rfl, rfl, rfl, ?_⟩
        intro hfate
        have hlanded := hrefused hrun n a hcurrent ha
        show Fate.dead = a.fate
        cases hat : a.fate with
        | flying => exact absurd hat hfate
        | landed => exact absurd hat hlanded
        | dead => rfl
    · exact Table.Grows.refl Submission.Evolves.refl _
  | crash o hstep => exact Table.Grows.refl Submission.Evolves.refl _
  | send id row submission hbusy hnone hid hrow hfate =>
    exact Table.Grows.insert Submission.Evolves.refl _ _
  | land n submission env receipt chain hsent hflying hstep =>
    refine Table.Grows.modify Submission.Evolves.refl fun a ha => ⟨rfl, rfl, rfl, rfl, ?_⟩
    intro hfate
    rw [hsent] at ha
    cases ha
    exact absurd hflying hfate
  | registry input chain hstep => exact Table.Grows.refl Submission.Evolves.refl _

theorem Ledger.sent_grows (hpath : Path (Ledger.Step host cli registry verifier) s h t) :
    s.sent.Grows Submission.Evolves t.sent :=
  hpath.state_invariant (P := fun t => s.sent.Grows Submission.Evolves t.sent)
    (fun _ _ _ hgrows hstep => hgrows.trans Submission.Evolves.trans hstep.sent_grows)
    (Table.Grows.refl Submission.Evolves.refl _)

/-- What the outbox sees of an input. -/
def Ledger.Input.outboxInput : Ledger.Input Address → Outbox.Input
  | .outbox input => input
  | _ => .elsewhere

/-- A step of the two is one of the outbox. -/
theorem Ledger.Step.toOutbox (hstep : Ledger.Step host cli registry verifier s input t) :
    Outbox.Step host cli s.outbox input.outboxInput t.outbox := by
  have hidle : Outbox.Step host cli s.outbox .elsewhere s.outbox :=
    Outbox.Step.elsewhere s.outbox s.outbox.db.verifications
  cases hstep with
  | outbox input o hstep hgoes => exact hstep
  | settle id row run recorded o hstep hsucceeded hrefused => exact hstep
  | crash o hstep => exact hstep
  | _ => exact hidle

theorem Ledger.outbox_path (hpath : Path (Ledger.Step host cli registry verifier) s h t) :
    Path (Outbox.Step host cli) s.outbox
      (h.map fun e => ⟨e.pre.outbox, e.label.outboxInput, e.post.outbox⟩) t.outbox :=
  Path.relabel (fun _ _ _ hstep => hstep.toOutbox) hpath

/-! ## What is on the registry -/

/-- The verifier's attestation is on the registry. -/
def Attested (chain : Registry.Chain T) (verifier : Address)
    (wasmHash inputDigest rebuiltHash : Bytes32) : Prop :=
  ∃ a ∈ Registry.readAttestations chain.world.persistent wasmHash inputDigest,
    a.verifier = verifier ∧ a.rebuiltHash = rebuiltHash

section Registry

variable {cfg : Registry.Config Address} {chain chain' : Registry.Chain T}
variable {wasmHash inputDigest rebuiltHash : Bytes32}

/-- What is on the registry stays there. -/
theorem Attested.step {i : Registry.Input Address} (hcfg : cfg.Accepted)
    (hs : Registry.Sound cfg chain) (hstep : Registry.Step registry chain i chain')
    (h : Attested chain verifier wasmHash inputDigest rebuiltHash) :
    Attested chain' verifier wasmHash inputDigest rebuiltHash := by
  obtain ⟨a, ha, hverifier, hhash⟩ := h
  refine ⟨a, ?_, hverifier, hhash⟩
  have hballot := (hstep.refines hcfg hs).2.ballot_eq (wasmHash, inputDigest)
  show a ∈ chain'.book.ballot (wasmHash, inputDigest)
  rw [hballot]
  exact List.mem_append_left _ ha

/-- A call of `attest` that returns puts the attestation on the registry. -/
theorem Attested.of_attest {env : Registry.Env Address} {value : Registry.Value}
    (hcfg : cfg.Accepted) (hs : Registry.Sound cfg chain)
    (hstep : Registry.Step registry chain
      (.call env (.attest verifier wasmHash inputDigest rebuiltHash) (.returned value)) chain') :
    Attested chain' verifier wasmHash inputDigest rebuiltHash := by
  refine ⟨⟨verifier, rebuiltHash, env.sequence⟩, ?_, rfl, rfl⟩
  have hballot := (hstep.refines hcfg hs).2.ballot_eq (wasmHash, inputDigest)
  rw [Registry.filedOn, if_pos rfl] at hballot
  show _ ∈ chain'.book.ballot (wasmHash, inputDigest)
  rw [hballot]
  exact List.mem_append_right _ (List.mem_singleton_self _)

end Registry

/-- The two agree as far as they can: what has landed is on the registry, and what is marked
submitted has landed. -/
structure Ledger.Sound (verifier : Address) (cfg : Registry.Config Address) (s : Ledger T) :
    Prop where
  registry : Registry.Sound cfg s.chain
  outbox : s.outbox.Orderly
  landed : ∀ n submission, s.sent.get? n = some submission → submission.fate = .landed →
    Attested s.chain verifier submission.wasmHash submission.inputDigest submission.rebuiltHash
  current : ∀ n, s.current = some n → ∃ id row submission, s.outbox.worker = some (id, row) ∧
    s.sent.get? n = some submission ∧ submission.rowId = id ∧ submission.Spelled row
  submitted : ∀ i row, s.outbox.db.attestations.get? i = some row → row.status = .submitted →
    ∃ n submission, s.sent.get? n = some submission ∧ submission.rowId = i ∧
      submission.fate = .landed ∧ submission.Spelled row

end Machine

/-- Where a row that is submitted comes from: it was, or the command has just succeeded. -/
theorem Outbox.Step.submitted {host : Host} {cli : String} {o o' : Outbox} {input : Outbox.Input}
    (ho : o.Orderly) (hstep : Outbox.Step host cli o input o') {i : ℕ} {row' : AttestationRow}
    (hget' : o'.db.attestations.get? i = some row') (hsubmitted : row'.status = .submitted) :
    o.db.attestations.get? i = some row' ∨
      ∃ row run, input = .settle i row run true ∧ run.succeeded = true ∧
        o.worker = some (i, row) ∧ row'.wasmHash = row.wasmHash ∧
        row'.inputDigest = row.inputDigest ∧ row'.rebuiltHash = row.rebuiltHash := by
  cases hstep.changes with
  | nothing hrows hworker => exact Or.inl (hrows ▸ hget')
  | taken now id row hinput hrows hdue hworker => exact Or.inl (hrows ▸ hget')
  | queued row hrows hnew hpending hattempts hworker =>
    rw [hrows, Table.get?_insert] at hget'
    split_ifs at hget' with hi
    · cases hget'
      rw [hpending] at hsubmitted
      cases hsubmitted
    · exact Or.inl hget'
  | recorded id row run write hinput hbusy hwrite hrows hworker =>
    rw [hrows, Table.get?_modify] at hget'
    split_ifs at hget' with hi
    · subst hi
      obtain ⟨hget, hpending⟩ := ho.fresh _ row hbusy
      rw [hget] at hget'
      cases hget'
      rw [hwrite.status row] at hsubmitted
      exact Or.inr ⟨row, run, hinput, statusAfter_eq_submitted hsubmitted hpending, hbusy,
        hwrite.wasmHash row, hwrite.inputDigest row, hwrite.rebuiltHash row⟩
    · exact Or.inl hget'

section Runs

variable [DecidableEq Address] {T : Registry.Token Address}
variable {host : Host} {cli : String} {registry verifier : Address} {s t : Ledger T}
variable {input : Ledger.Input Address} {h : List (Transition (Ledger T) (Ledger.Input Address))}
variable {cfg : Registry.Config Address}

omit [DecidableEq Address] in
/-- What is marked submitted has landed, and stays so. -/
theorem Ledger.Sound.submitted_of_grows (hs : s.Sound verifier cfg) {sent : Table Submission}
    (hgrows : s.sent.Grows Submission.Evolves sent) {i : ℕ} {row : AttestationRow}
    (hget : s.outbox.db.attestations.get? i = some row) (hsubmitted : row.status = .submitted) :
    ∃ n submission, sent.get? n = some submission ∧ submission.rowId = i ∧
      submission.fate = .landed ∧ submission.Spelled row := by
  obtain ⟨n, a, ha, hid, hfate, hspelled⟩ := hs.submitted i row hget hsubmitted
  obtain ⟨b, hb, hab⟩ := hgrows n a ha
  have hstays := hab.fate (by rw [hfate]; decide)
  exact ⟨n, b, hb, hab.rowId.trans hid, hstays.trans hfate, hab.spelled hspelled⟩

/-- What has landed is not dropped. -/
theorem get?_of_drop {sent : Table Submission} {current : Option ℕ} {n : ℕ} {a : Submission}
    (hget : (drop sent current).get? n = some a) (hlanded : a.fate = .landed) :
    sent.get? n = some a := by
  cases current with
  | none => exact hget
  | some m =>
    rw [drop, Table.get?_modify] at hget
    split_ifs at hget with hn
    · obtain ⟨b, -, rfl⟩ := Option.map_eq_some_iff.1 hget
      cases hlanded
    · exact hget

/-- The registry moves by its own steps. -/
theorem Ledger.Step.chain (hstep : Ledger.Step host cli registry verifier s input t) :
    t.chain = s.chain ∨ ∃ i, Registry.Step registry s.chain i t.chain := by
  cases hstep with
  | land n submission env receipt chain hsent hflying hstep => exact Or.inr ⟨_, hstep⟩
  | registry input chain hstep => exact Or.inr ⟨_, hstep⟩
  | _ => exact Or.inl rfl

theorem Ledger.Sound.registry_step (hcfg : cfg.Accepted) (hs : s.Sound verifier cfg)
    (hstep : Ledger.Step host cli registry verifier s input t) : Registry.Sound cfg t.chain := by
  rcases hstep.chain with heq | ⟨i, hchain⟩
  · rw [heq]
    exact hs.registry
  · exact (hchain.refines hcfg hs.registry).1

/-- What was on the registry is there after any step of the two. -/
theorem Attested.ledger_step {wasmHash inputDigest rebuiltHash : Bytes32} (hcfg : cfg.Accepted)
    (hs : s.Sound verifier cfg) (hstep : Ledger.Step host cli registry verifier s input t)
    (h : Attested s.chain verifier wasmHash inputDigest rebuiltHash) :
    Attested t.chain verifier wasmHash inputDigest rebuiltHash := by
  rcases hstep.chain with heq | ⟨i, hchain⟩
  · rw [heq]
    exact h
  · exact h.step hcfg hs.registry hchain

/-- A transaction that has landed had landed before, or has just called the registry. -/
theorem Ledger.Step.landed (hcfg : cfg.Accepted) (hs : s.Sound verifier cfg)
    (hstep : Ledger.Step host cli registry verifier s input t) {n : ℕ} {a : Submission}
    (hget : t.sent.get? n = some a) (hlanded : a.fate = .landed) :
    s.sent.get? n = some a ∨
      Attested t.chain verifier a.wasmHash a.inputDigest a.rebuiltHash := by
  cases hstep with
  | settle id row run recorded o hstep hsucceeded hrefused =>
    have hget' : (if run.refused = true then drop s.sent s.current else s.sent).get? n =
        some a := hget
    split_ifs at hget'
    · exact Or.inl (get?_of_drop hget' hlanded)
    · exact Or.inl hget'
  | send id row submission hbusy hnone hid hrow hfate =>
    rw [Table.get?_insert] at hget
    split_ifs at hget
    · cases hget
      rw [hfate] at hlanded
      cases hlanded
    · exact Or.inl hget
  | land m submission env receipt chain hsent hflying hstep =>
    rw [Table.get?_modify] at hget
    split_ifs at hget with hm
    · rw [hm, hsent] at hget
      cases hget
      cases receipt with
      | returned value => exact Or.inr (Attested.of_attest hcfg hs.registry hstep)
      | refused error => cases hlanded
      | trapped fault => cases hlanded
    · exact Or.inl hget
  | _ => exact Or.inl hget

/-- Where the worker goes on, it goes on with the same row. -/
theorem Outbox.Step.worker_eq {o o' : Outbox} {input : Outbox.Input}
    (hstep : Outbox.Step host cli o input o') (hgoes : input.ends = false)
    {job : ℕ × AttestationRow} (hbusy : o.worker = some job) : o'.worker = some job := by
  cases hstep with
  | enqueue now id report written => exact hbusy
  | pick now id row hidle hdue =>
    rw [hidle] at hbusy
    cases hbusy
  | settle now id row run recorded hbusy => cases hgoes
  | crash => cases hgoes
  | elsewhere verifications => exact hbusy

/-- The command's transaction is one for the row that the worker has, also after a step. -/
theorem Ledger.Sound.current_step (hs : s.Sound verifier cfg)
    (hstep : Ledger.Step host cli registry verifier s input t) {n : ℕ}
    (hcurrent : t.current = some n) :
    ∃ id row submission, t.outbox.worker = some (id, row) ∧ t.sent.get? n = some submission ∧
      submission.rowId = id ∧ submission.Spelled row := by
  have hgrows := hstep.sent_grows
  cases hstep with
  | outbox input o hstep hgoes =>
    obtain ⟨id, row, submission, hbusy, hrest⟩ := hs.current n hcurrent
    exact ⟨id, row, submission, hstep.worker_eq hgoes hbusy, hrest⟩
  | settle id row run recorded o hstep hsucceeded hrefused => cases hcurrent
  | crash o hstep => cases hcurrent
  | send id row submission hbusy hnone hid hrow hfate =>
    cases hcurrent
    exact ⟨id, row, submission, hbusy, by rw [Table.get?_insert, if_pos rfl], hid, hrow⟩
  | land m submission env receipt chain hsent hflying hstep =>
    obtain ⟨id, row, a, hbusy, ha, hid, hspelled⟩ := hs.current n hcurrent
    obtain ⟨b, hb, hab⟩ := hgrows n a ha
    exact ⟨id, row, b, hbusy, hb, hab.rowId.trans hid, hab.spelled hspelled⟩
  | registry input chain hstep => exact hs.current n hcurrent

/-- A command that has succeeded has seen its transaction land. -/
theorem Ledger.Step.succeeded (hstep : Ledger.Step host cli registry verifier s input t)
    {id : ℕ} {row : AttestationRow} {run : CliRun} {recorded : Bool}
    (hinput : input.outboxInput = .settle id row run recorded) (hrun : run.succeeded = true) :
    ∃ n submission, s.current = some n ∧ s.sent.get? n = some submission ∧
      submission.fate = .landed := by
  cases hstep with
  | outbox input o hstep hgoes =>
    have hsettle : input = .settle id row run recorded := hinput
    rw [hsettle] at hgoes
    cases hgoes
  | settle id row run recorded o hstep hsucceeded hrefused =>
    cases hinput
    exact hsucceeded hrun
  | _ => cases hinput

/-- A command that was refused leaves its transaction dead. -/
theorem Ledger.Step.dead_of_refused {id n : ℕ} {row : AttestationRow} {run : CliRun}
    {recorded : Bool} {a : Submission}
    (hstep : Ledger.Step host cli registry verifier s (.outbox (.settle id row run recorded)) t)
    (hrefused : run.refused = true) (hcurrent : s.current = some n)
    (ha : s.sent.get? n = some a) : ∃ b, t.sent.get? n = some b ∧ b.fate = .dead := by
  cases hstep with
  | outbox input o hstep hgoes => cases hgoes
  | settle id row run recorded o hstep hsucceeded hrefused' =>
    refine ⟨{ a with fate := .dead }, ?_, rfl⟩
    rw [if_pos hrefused, hcurrent, drop, Table.get?_modify, if_pos rfl, ha, Option.map_some]

/-- What is marked submitted has landed, also after a step. -/
theorem Ledger.Sound.submitted_step (hs : s.Sound verifier cfg)
    (hstep : Ledger.Step host cli registry verifier s input t) {i : ℕ} {row : AttestationRow}
    (hget : t.outbox.db.attestations.get? i = some row) (hsubmitted : row.status = .submitted) :
    ∃ n submission, t.sent.get? n = some submission ∧ submission.rowId = i ∧
      submission.fate = .landed ∧ submission.Spelled row := by
  rcases hstep.toOutbox.submitted hs.outbox hget hsubmitted with hold | ⟨row₁, run, hinput, hrun,
    hbusy, hwasm, hdigest, hrebuilt⟩
  · exact hs.submitted_of_grows hstep.sent_grows hold hsubmitted
  · obtain ⟨n, a, hcurrent, ha, hlanded⟩ := hstep.succeeded hinput hrun
    obtain ⟨id, row₂, a', hbusy', ha', hid, hspelled⟩ := hs.current n hcurrent
    rw [hbusy] at hbusy'
    cases hbusy'
    rw [ha] at ha'
    cases ha'
    obtain ⟨b, hb, hab⟩ := hstep.sent_grows n a ha
    have hstays := hab.fate (by rw [hlanded]; decide)
    refine ⟨n, b, hb, hab.rowId.trans hid, hstays.trans hlanded, hab.spelled ?_⟩
    exact ⟨hwasm ▸ hspelled.wasmHash, hdigest ▸ hspelled.inputDigest,
      hrebuilt ▸ hspelled.rebuiltHash⟩

/-- **One step**: each of the agreements is kept. -/
theorem Ledger.Sound.step (hcfg : cfg.Accepted) (hs : s.Sound verifier cfg)
    (hstep : Ledger.Step host cli registry verifier s input t) : t.Sound verifier cfg where
  registry := hs.registry_step hcfg hstep
  outbox := (hs.outbox.step hstep.toOutbox).1
  landed n a hget hlanded := by
    rcases hstep.landed hcfg hs hget hlanded with hold | hnew
    · exact (hs.landed n a hold hlanded).ledger_step hcfg hs hstep
    · exact hnew
  current n hcurrent := hs.current_step hstep hcurrent
  submitted i row hget hsubmitted := hs.submitted_step hstep hget hsubmitted

variable {s₀ : Registry.Chain T}

/-- **The two agree**, in every run. -/
theorem Ledger.Run.sound (hrun : Ledger.Run host cli registry verifier cfg s₀ h s) :
    s.Sound verifier cfg := by
  obtain ⟨hcfg, hregistry, -⟩ := hrun.deployed.sound
  have hnone : ∀ {α : Type} {i : ℕ} {a : α}, (Table.empty : Table α).get? i ≠ some a := by
    intro α i a hget
    rw [Table.get?_empty] at hget
    cases hget
  refine hrun.path.state_invariant (P := fun s => s.Sound verifier cfg)
    (fun _ _ _ hs hstep => hs.step hcfg hstep) ?_
  exact ⟨hregistry, Outbox.orderly_new, fun _ _ hget => absurd hget hnone,
    fun _ hcurrent => (by cases hcurrent), fun _ _ hget => absurd hget hnone⟩

omit [DecidableEq Address] in
/-- A success that is recorded makes the row submitted. -/
theorem submitted_of_settle {o o' : Outbox} {i : ℕ} {row : AttestationRow} {run : CliRun}
    (ho : o.Orderly) (hstep : Outbox.Step host cli o (.settle i row run true) o')
    (hrun : run.succeeded = true) :
    ∃ row', o'.db.attestations.get? i = some row' ∧ row'.status = .submitted := by
  cases hstep with
  | settle now id row run recorded hbusy =>
    obtain ⟨hget, -⟩ := ho.fresh i row hbusy
    obtain ⟨txHash, houtcome⟩ := submit_eq_ok_iff.2 hrun
    obtain ⟨write, hwrite, hrows⟩ := @recordOutcome_attestations now i o.db row (submit cli run)
    refine ⟨write row, ?_, ?_⟩
    · rw [if_pos rfl, hrows, Table.get?_modify, if_pos rfl, hget, Option.map_some]
    · rw [hwrite.status, houtcome, statusAfter]

/-- **What the outbox says and what is on the registry.**

A row that is submitted has its attestation on the registry, under this verifier and with the three
digests that the row spells.

A row that is rejected may be there as well, but not by a submission that the worker has seen the
end of: where such a submission has landed, all that was recorded about it is a failure in
transport. -/
theorem agrees_with_ledger (hrun : Ledger.Run host cli registry verifier cfg s₀ h s) :
    (∀ i row, s.outbox.db.attestations.get? i = some row → row.status = .submitted →
      ∃ wasmHash inputDigest rebuiltHash : Bytes32, Spells row.wasmHash wasmHash.toList ∧
        Spells row.inputDigest inputDigest.toList ∧ Spells row.rebuiltHash rebuiltHash.toList ∧
        Attested s.chain verifier wasmHash inputDigest rebuiltHash) ∧
    ∀ i row, s.outbox.db.attestations.get? i = some row → row.status = .rejected →
      ∀ n submission, s.sent.get? n = some submission → submission.rowId = i →
        submission.fate = .landed → ∀ e ∈ h, ∀ read run,
          e.label = .outbox (.settle i read run true) → e.pre.current = some n →
            ∃ why, submit cli run = .error (.transient why) := by
  have hs := hrun.sound
  constructor
  · intro i row hget hsubmitted
    obtain ⟨n, submission, hsent, -, hlanded, hspelled⟩ := hs.submitted i row hget hsubmitted
    exact ⟨_, _, _, hspelled.wasmHash, hspelled.inputDigest, hspelled.rebuiltHash,
      hs.landed n submission hsent hlanded⟩
  · rintro i row hget hrejected n submission hsent - hlanded ⟨pre, label, post⟩ he read run hlabel
      hcurrent
    obtain ⟨before, _, -, hbefore, hstep, hafter⟩ := hrun.path.split he
    have hpre : pre.Sound verifier cfg := Ledger.Run.sound ⟨hrun.deployed, hbefore⟩
    have hpost : post.Sound verifier cfg := hpre.step hrun.deployed.sound.1 hstep
    have hstep' : Ledger.Step host cli registry verifier pre label post := hstep
    cases hlabel
    have hsettle := hstep'.toOutbox
    by_cases hsucceeded : run.succeeded = true
    · -- the row was marked submitted then, and still is
      obtain ⟨row', hget', hsubmitted⟩ := submitted_of_settle hpre.outbox hsettle hsucceeded
      obtain ⟨-, hrows⟩ := hpost.outbox.path (Ledger.outbox_path hafter)
      obtain ⟨row'', hget'', hevolves⟩ := hrows i row' hget'
      rw [hevolves.final (by rw [hsubmitted]; decide), hget] at hget''
      cases hget''
      rw [hsubmitted] at hrejected
      cases hrejected
    · by_cases hrefused : run.refused = true
      · -- the transaction was dropped then, and has not landed since
        obtain ⟨id, row', a, -, ha, -⟩ := hpre.current n hcurrent
        obtain ⟨b, hb, hdead⟩ := hstep'.dead_of_refused hrefused hcurrent ha
        obtain ⟨c, hc, hbc⟩ := Ledger.sent_grows hafter n b hb
        rw [hsent] at hc
        cases hc
        rw [hbc.fate (by rw [hdead]; decide), hdead] at hlanded
        cases hlanded
      · exact submit_eq_transient (by simpa using hsucceeded) (by simpa using hrefused)

end Runs

/-! ## A transaction that lands unseen -/

namespace Sample

/-- The registry, on which verifier 1 has staked. -/
def staked : Registry.Chain (Registry.Vrfy.token ℕ) :=
  Registry.played 0 (Registry.Sample.chain 60 120) [.call (.stake 1 1000)]

/-- The transaction for the attestation. -/
def sentJob : Submission where
  rowId := 1
  wasmHash := (claimOn vrfyImage).wasmHash
  inputDigest := (claimOn vrfyImage).inputDigest
  rebuiltHash := (claimOn vrfyImage).rebuiltHash
  fate := .flying

theorem sentJob_spelled : sentJob.Spelled queuedRow where
  wasmHash := by decide +kernel
  inputDigest := by decide +kernel
  rebuiltHash := by decide +kernel

/-- The worker submits the attestation, and the command has sent the transaction. -/
def submitting : Ledger (Registry.Vrfy.token ℕ) where
  outbox := { waiting with worker := some (1, queuedRow) }
  chain := staked
  sent := ⟨[sentJob]⟩
  current := some 1

theorem run_submitting : ∃ h, Ledger.Run host "stellar" 0 1 (Registry.Sample.config 60 120)
    (Registry.Sample.chain 60 120) h submitting := by
  have hstake : Registry.Step 0 (Registry.Sample.chain 60 120) _ staked :=
    Registry.Step.call (Registry.Sample.chain 60 120) (fun _ => true) (.stake 1 1000)
  have hpick : Outbox.Step host "stellar" waiting (.pick 0 1 queuedRow) _ :=
    Outbox.Step.pick waiting 0 1 queuedRow rfl due_waiting
  have hsend : Ledger.Step host "stellar" 0 1
      ⟨{ waiting with worker := some (1, queuedRow) }, staked, .empty, none⟩ .send submitting :=
    .send _ 1 queuedRow sentJob rfl rfl rfl sentJob_spelled rfl
  exact ⟨_, Registry.Sample.deployed (by decide) (by decide),
    (((Path.nil.snoc (.registry _ _ staked hstake)).snoc
      (.outbox _ _ waiting step_waiting rfl)).snoc (.outbox _ _ _ hpick rfl)).snoc hsend⟩

/-- What the registry is once it has taken up the transaction. -/
def attested : Registry.Chain (Registry.Vrfy.token ℕ) :=
  Registry.played 0 staked [.call (sentJob.call 1)]

theorem step_attested : Registry.Step 0 staked
    (.call ⟨1, 0, fun _ => true⟩ (sentJob.call 1) (.returned .unit)) attested := by
  have hreceipt : Registry.receipt ((sentJob.call 1).run ⟨1, 0, fun _ => true⟩ staked.world) =
      .returned .unit := by decide +kernel
  have hstep : Registry.Step 0 staked (.call ⟨1, 0, fun _ => true⟩ (sentJob.call 1) _) attested :=
    Registry.Step.call staked (fun _ => true) (sentJob.call 1)
  exact hreceipt ▸ hstep

/-- The transaction has landed. -/
def landedJob : Table Submission := ⟨[{ sentJob with fate := .landed }]⟩

/-- The transaction has landed, and the command says so: the row is submitted, and on the
registry. -/
theorem landed_seen : ∃ h s, Ledger.Run host "stellar" 0 1 (Registry.Sample.config 60 120)
      (Registry.Sample.chain 60 120) h s ∧
    ∃ row, s.outbox.db.attestations.get? 1 = some row ∧ row.status = .submitted ∧
      ∃ wasmHash inputDigest rebuiltHash : Bytes32, Spells row.wasmHash wasmHash.toList ∧
        Spells row.inputDigest inputDigest.toList ∧ Spells row.rebuiltHash rebuiltHash.toList ∧
        Attested s.chain 1 wasmHash inputDigest rebuiltHash := by
  obtain ⟨h, hrun⟩ := run_submitting
  have hland : Ledger.Step host "stellar" 0 1 submitting (.land 1)
      { submitting with chain := attested, sent := landedJob } :=
    .land submitting 1 sentJob _ _ attested rfl rfl step_attested
  have hsettle : Outbox.Step host "stellar" submitting.outbox
      (.settle 1 queuedRow (.exited true "") true) _ :=
    Outbox.Step.settle submitting.outbox 0 1 queuedRow (.exited true "") true rfl
  have hend := (hrun.path.snoc hland).snoc
    (.settle _ 1 queuedRow (.exited true "") true _ hsettle
      (fun _ => ⟨1, _, rfl, rfl, rfl⟩) fun hrefused => by cases hrefused)
  have hall : Ledger.Run host "stellar" 0 1 (Registry.Sample.config 60 120) _ _ _ :=
    ⟨hrun.deployed, hend⟩
  obtain ⟨row, hget, hsubmitted⟩ :=
    submitted_of_settle hrun.sound.outbox hsettle rfl
  exact ⟨_, _, hall, row, hget, hsubmitted, (agrees_with_ledger hall).1 1 row hget hsubmitted⟩

/-- The row, when the command has been given up once. -/
def retryRow : AttestationRow :=
  { queuedRow with
    lastError := some ("stellar-cli did not finish within " ++ toString invokeTimeout ++ "s")
    attempts := 1
    nextAttemptAt := 5 }

/-- The outbox, while the row waits to be tried again. -/
def retrying : Outbox := ⟨⟨.empty, ⟨[retryRow]⟩⟩, none⟩

theorem due_retrying : retrying.db.dueAttestation 5 = some (1, retryRow) := by
  refine dueAttestation_eq_some.2 ⟨rfl, ⟨rfl, le_rfl⟩, fun j hj other hget => ?_⟩
  obtain rfl : j = 0 := by omega
  cases hget

/-- The command, which the registry has refused because there is an attestation already. -/
def alreadyAttested : CliRun := .exited false "error: Error(Contract, #4)"

theorem submit_alreadyAttested : submit "stellar" alreadyAttested =
    .error (.permanent "registry refused: this verifier has already attested this claim (#4)") := by
  have hcode : contractErrorCode (redact "error: Error(Contract, #4)") = some 4 := by
    decide +kernel
  simp only [alreadyAttested, submit, classify, hcode]
  rfl

/-- The transaction lands when the command has been given up, and the next one is refused for it:
the row is rejected, and on the registry by a submission of its own. -/
theorem landed_unseen : ∃ h s, Ledger.Run host "stellar" 0 1 (Registry.Sample.config 60 120)
      (Registry.Sample.chain 60 120) h s ∧
    ∃ row submission, s.outbox.db.attestations.get? 1 = some row ∧ row.status = .rejected ∧
      s.sent.get? 1 = some submission ∧ submission.rowId = 1 ∧ submission.fate = .landed ∧
      Attested s.chain 1 submission.wasmHash submission.inputDigest submission.rebuiltHash := by
  obtain ⟨h, hrun⟩ := run_submitting
  have hsettle : Outbox.Step host "stellar" submitting.outbox (.settle 1 queuedRow .timedOut true)
      retrying := Outbox.Step.settle submitting.outbox 0 1 queuedRow .timedOut true rfl
  have htimeout : Ledger.Step host "stellar" 0 1 submitting
      (.outbox (.settle 1 queuedRow .timedOut true)) ⟨retrying, staked, ⟨[sentJob]⟩, none⟩ :=
    .settle submitting 1 queuedRow .timedOut true retrying hsettle (fun hrun => by cases hrun)
      fun hrun => by cases hrun
  have hland : Ledger.Step host "stellar" 0 1 ⟨retrying, staked, ⟨[sentJob]⟩, none⟩ (.land 1)
      ⟨retrying, attested, landedJob, none⟩ :=
    .land ⟨retrying, staked, ⟨[sentJob]⟩, none⟩ 1 sentJob _ _ attested rfl rfl step_attested
  have hpick : Outbox.Step host "stellar" retrying (.pick 5 1 retryRow) _ :=
    Outbox.Step.pick retrying 5 1 retryRow rfl due_retrying
  have hrefuse : Outbox.Step host "stellar" ⟨retrying.db, some (1, retryRow)⟩
      (.settle 1 retryRow alreadyAttested true) _ :=
    Outbox.Step.settle _ 5 1 retryRow alreadyAttested true rfl
  have hend := (((hrun.path.snoc htimeout).snoc hland).snoc (.outbox _ _ _ hpick rfl)).snoc
    (.settle _ 1 retryRow alreadyAttested true _ hrefuse (fun hrun => by cases hrun)
      fun _ n submission hcurrent => by cases hcurrent)
  have hall : Ledger.Run host "stellar" 0 1 (Registry.Sample.config 60 120) _ _ _ :=
    ⟨hrun.deployed, hend⟩
  have hsent : (if alreadyAttested.refused = true then drop landedJob none else
      landedJob).get? 1 = some { sentJob with fate := .landed } := by
    rw [drop, ite_self]
    rfl
  obtain ⟨row, hget, hrejected⟩ : ∃ row, (recordOutcome 5 retrying.db 1 retryRow
      (submit "stellar" alreadyAttested)).attestations.get? 1 = some row ∧
        row.status = .rejected := by
    rw [submit_alreadyAttested]
    exact ⟨_, rfl, rfl⟩
  exact ⟨_, _, hall, row, _, hget, hrejected, hsent, rfl, rfl, hall.sound.landed 1 _ hsent rfl⟩

end Sample

end Api
end Sorofy
