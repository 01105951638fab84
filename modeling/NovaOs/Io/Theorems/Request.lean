import NovaOs.Io.Request

/-!
# What becomes of a request

When a request that is finished or cancelled stays so, and when a block transfer that reports success has succeeded,
whatever the drivers do.
-/

namespace NovaOs.Io

open Lib

variable {pool : Nat} {σ : Type*} (ops : OpsPtr → NovaBlockOps pool σ)

/-! ## Finished requests -/

/-- The hook that a submission of the request calls, if there is one. -/
def World.handler (w : World pool σ) (req : NovaIoRequest pool) :
    Option (World pool σ → DevPtr pool → NovaIoRequest pool → Option (Int × World pool σ × NovaIoRequest pool)) :=
  req.device.bind fun dev => req.buffer.bind fun _ => w.submitHook ops dev

/-- The drivers keep a count of the calls of their hooks, which is 0 so far. -/
def World.counting (w : World pool σ) : World pool (σ × Nat) := ⟨w.io, (w.drivers, 0)⟩

def World.uncounted (w : World pool (σ × Nat)) : World pool σ := ⟨w.io, w.drivers.1⟩

/-- The hook, with its calls counted. -/
def countCalls (submitIo : World pool σ → DevPtr pool → NovaIoRequest pool →
    Option (Int × World pool σ × NovaIoRequest pool)) (w : World pool (σ × Nat)) (dev : DevPtr pool)
    (req : NovaIoRequest pool) : Option (Int × World pool (σ × Nat) × NovaIoRequest pool) :=
  (submitIo w.uncounted dev req).map fun r => (r.1, ⟨r.2.1.io, (r.2.1.drivers, w.drivers.2 + 1)⟩, r.2.2)

def counted (ops : OpsPtr → NovaBlockOps pool σ) (p : OpsPtr) : NovaBlockOps pool (σ × Nat) :=
  ⟨(ops p).submitIo.map countCalls⟩

/-- What a finished request is to keep: its status, its error code and the number of its passes to a driver. -/
def outcome (st : Option (RequestState pool (σ × Nat))) : Option ((NovaIoStatus × Int) × Nat) :=
  st.bind fun st => st.2.map fun req => ((req.status, req.errorCode), st.1.drivers.2)

def IsFinished (o : Option ((NovaIoStatus × Int) × Nat)) : Prop :=
  ∃ status code passes, o = some ((status, code), passes) ∧ status ≠ .pending

/-- A finished request with a device and a buffer is submitted. It is not for want of a hook that it failed, or there is
a hook now. -/
def Resubmits (st : Option (RequestState pool σ)) (op : RequestOp pool) : Prop :=
  op = .submit ∧ ∃ w req, st = some (w, some req) ∧ req.status ≠ .pending ∧ req.device.isSome ∧ req.buffer.isSome ∧
    ((w.handler ops req).isNone → ¬ (req.status = .error ∧ req.errorCode = -1))

variable {ops}

theorem novaIoSubmit_cases (ops : OpsPtr → NovaBlockOps pool σ) (w : World pool σ) (req : NovaIoRequest pool) :
    ((req.device = none ∨ req.buffer = none) ∧ w.handler ops req = none ∧
      novaIoSubmit ops w (some req) = some (-1, w, some req)) ∨
    (∃ dev buf submitIo, req.device = some dev ∧ req.buffer = some buf ∧ w.handler ops req = some submitIo ∧
      novaIoSubmit ops w (some req) = (submitIo w dev req).map fun r => (r.1, r.2.1, some r.2.2)) ∨
    (req.device.isSome ∧ req.buffer.isSome ∧ w.handler ops req = none ∧
      novaIoSubmit ops w (some req) = some (-1, w, some { req with status := .error, errorCode := -1 })) := by
  cases hdev : req.device with
  | none =>
      refine .inl ⟨.inl rfl, ?_, ?_⟩
      · rw [World.handler, hdev, Option.bind_none]
      · simp only [novaIoSubmit, hdev]
  | some dev =>
      cases hbuf : req.buffer with
      | none =>
          refine .inl ⟨.inr rfl, ?_, ?_⟩
          · rw [World.handler, hdev, hbuf, Option.bind_some, Option.bind_none]
          · simp only [novaIoSubmit, hdev, hbuf]
      | some buf =>
          have hhandler : w.handler ops req = w.submitHook ops dev := by
            rw [World.handler, hdev, hbuf, Option.bind_some, Option.bind_some]
          cases hhook : w.submitHook ops dev with
          | none =>
              refine .inr (.inr ⟨rfl, rfl, hhandler.trans hhook, ?_⟩)
              simp only [novaIoSubmit, hdev, hbuf, hhook]
          | some submitIo =>
              refine .inr (.inl ⟨dev, buf, submitIo, rfl, rfl, hhandler.trans hhook, ?_⟩)
              simp only [novaIoSubmit, hdev, hbuf, hhook]

theorem isFinished_iff {st : Option (RequestState pool (σ × Nat))} :
    IsFinished (outcome st) ↔ ∃ w req, st = some (w, some req) ∧ req.status ≠ .pending := by
  constructor
  · rintro ⟨status, code, passes, hcode, hdone⟩
    obtain ⟨⟨w, req⟩, rfl, hreq⟩ := Option.bind_eq_some_iff.mp hcode
    obtain ⟨req, rfl, he⟩ := Option.map_eq_some_iff.mp hreq
    cases he
    exact ⟨w, req, rfl, hdone⟩
  · rintro ⟨w, req, rfl, hdone⟩
    exact ⟨req.status, req.errorCode, w.drivers.2, rfl, hdone⟩

/-! The hooks do the same whether their calls are counted or not. -/

theorem submitHook_counted (w : World pool (σ × Nat)) (dev : DevPtr pool) :
    w.submitHook (counted ops) dev = (w.uncounted.submitHook ops dev).map countCalls := by
  have hio : w.uncounted.io = w.io := rfl
  rw [World.submitHook, World.submitHook, hio]
  cases (w.io.devices dev).type with
  | block =>
      cases (w.io.devices dev).blockOps with
      | none => rfl
      | some p => rfl
  | _ => rfl

theorem handler_counted (w : World pool (σ × Nat)) (req : NovaIoRequest pool) :
    w.handler (counted ops) req = (w.uncounted.handler ops req).map countCalls := by
  rw [World.handler, World.handler]
  cases req.device with
  | none => rfl
  | some dev =>
      cases req.buffer with
      | none => rfl
      | some buf => exact submitHook_counted w dev

/-- The state of a request without the count. -/
def forgetCount (st : RequestState pool (σ × Nat)) : RequestState pool σ := (st.1.uncounted, st.2)

theorem novaIoSubmit_counted (ops : OpsPtr → NovaBlockOps pool σ) (w : World pool (σ × Nat)) (req? : Option (NovaIoRequest pool)) :
    (novaIoSubmit (counted ops) w req?).map (Prod.map id fun r => (r.1.uncounted, r.2)) =
      novaIoSubmit ops w.uncounted req? := by
  cases req? with
  | none => rfl
  | some req =>
      cases hdev : req.device with
      | none => simp only [novaIoSubmit, hdev, Option.map_some]; rfl
      | some dev =>
          cases hbuf : req.buffer with
          | none => simp only [novaIoSubmit, hdev, hbuf, Option.map_some]; rfl
          | some buf =>
              simp only [novaIoSubmit, hdev, hbuf, submitHook_counted]
              cases w.uncounted.submitHook ops dev with
              | none => rfl
              | some submitIo =>
                  simp only [Option.map_some, countCalls, Option.map_map]
                  rfl

theorem projects_counted : Machine.Projects (requestStep (counted ops)) (requestStep ops) forgetCount := by
  rintro ⟨w, req?⟩ op
  cases op with
  | fill type device offset buffer length => rfl
  | cancel => rfl
  | submit =>
      have hcall := novaIoSubmit_counted ops w req?
      simp only [requestStep, forgetCount, ← hcall, Option.map_map]
      rfl

/-- A submission leaves a finished request alone exactly when it is refused, or fails the request as it has failed. -/
theorem outcome_submit_iff (w : World pool (σ × Nat)) (req : NovaIoRequest pool) (hdone : req.status ≠ .pending) :
    outcome ((requestMachine (counted ops)).next (some (w, some req)) .submit) = outcome (some (w, some req)) ↔
      ¬ Resubmits ops (some (w.uncounted, some req)) .submit := by
  rcases novaIoSubmit_cases (counted ops) w req with
    ⟨hnull, _, hcall⟩ | ⟨dev, buf, hook, hdev, hbuf, hhandler, hcall⟩ | ⟨hdev, hbuf, hhandler, hcall⟩
  · have hstep : requestStep (counted ops) (w, some req) .submit = some (some (-1), (w, some req)) := by
      rw [requestStep, hcall, Option.map_some]
    refine iff_of_true (by rw [requestMachine, Machine.ofPartial_next hstep]) ?_
    rintro ⟨_, w', req', he, _, hdev, hbuf, _⟩
    cases he
    rcases hnull with hnull | hnull
    · simp [hnull] at hdev
    · simp [hnull] at hbuf
  · rw [handler_counted] at hhandler
    obtain ⟨submitIo, hsubmit, rfl⟩ := Option.map_eq_some_iff.mp hhandler
    refine iff_of_false (fun he => ?_) (not_not_intro ?_)
    · cases hreturns : submitIo w.uncounted dev req with
      | none =>
          have hstep : (requestMachine (counted ops)).next (some (w, some req)) .submit = none := by
            simp only [requestMachine, Machine.next, Machine.ofPartial, Option.bind_some, requestStep, hcall,
              countCalls, hreturns, Option.map_none]
          rw [hstep] at he
          cases he
      | some r =>
          -- The hook returned, and its call was counted.
          have hstep : requestStep (counted ops) (w, some req) .submit =
              some (some r.1, (⟨r.2.1.io, (r.2.1.drivers, w.drivers.2 + 1)⟩, some r.2.2)) := by
            simp only [requestStep, hcall, countCalls, hreturns, Option.map_some]
          rw [requestMachine, Machine.ofPartial_next hstep] at he
          have hpasses : w.drivers.2 + 1 = w.drivers.2 := congrArg Prod.snd (Option.some.inj he)
          exact Nat.succ_ne_self _ hpasses
    · refine ⟨rfl, w.uncounted, req, rfl, hdone, ?_, ?_, ?_⟩ <;> simp [hdev, hbuf, hsubmit]
  · rw [handler_counted, Option.map_eq_none_iff] at hhandler
    have hstep : requestStep (counted ops) (w, some req) .submit =
        some (some (-1), (w, some { req with status := .error, errorCode := -1 })) := by
      rw [requestStep, hcall, Option.map_some]
    have hagain : Resubmits ops (some (w.uncounted, some req)) .submit ↔
        ¬ (req.status = .error ∧ req.errorCode = -1) := by
      constructor
      · rintro ⟨_, w', req', he, _, _, _, hfailed⟩
        cases he
        exact hfailed (by rw [hhandler]; rfl)
      · exact fun hfailed => ⟨rfl, w.uncounted, req, rfl, hdone, hdev, hbuf, fun _ => hfailed⟩
    rw [requestMachine, Machine.ofPartial_next hstep, hagain, not_not]
    constructor
    · intro he
      have hkept := congrArg Prod.fst (Option.some.inj he)
      exact ⟨(congrArg Prod.fst hkept).symm, (congrArg Prod.snd hkept).symm⟩
    · rintro ⟨hstatus, hcode⟩
      simp [outcome, hstatus, hcode]

/-- A finished request is left alone by every call but a second submission. -/
theorem outcome_next_iff (st : Option (RequestState pool (σ × Nat))) (op : RequestOp pool) :
    (IsFinished (outcome st) → outcome ((requestMachine (counted ops)).next st op) = outcome st) ↔
      ¬ Resubmits ops (st.map forgetCount) op := by
  rw [isFinished_iff]
  by_cases hst : ∃ w req, st = some (w, some req) ∧ req.status ≠ .pending
  · rw [forall_prop_of_true hst]
    obtain ⟨w, req, rfl, hdone⟩ := hst
    cases op with
    | submit => exact outcome_submit_iff w req hdone
    | cancel =>
        refine iff_of_true ?_ (by simp [Resubmits])
        have hcall : requestStep (counted ops) (w, some req) .cancel = some (some (-1), (w, some req)) := by
          simp [requestStep, novaIoCancel, hdone]
        rw [requestMachine, Machine.ofPartial_next hcall]
    | fill type device offset buffer length => exact iff_of_true rfl (by simp [Resubmits])
  · refine iff_of_true (fun hdone => absurd hdone hst) ?_
    rintro ⟨_, w, req, he, hdone, _⟩
    obtain ⟨⟨w', req?⟩, rfl, hreq⟩ := Option.map_eq_some_iff.mp he
    cases hreq
    exact hst ⟨w', req, rfl, hdone⟩

/-- From its allocation on, a request that is finished stays as it is and is not passed to a driver any more, exactly
when no finished request is submitted. -/
theorem finished_stays_iff (w : World pool σ) (memory : Bool) (calls : List (RequestOp pool)) :
    (requestMachine (counted ops)).Frozen outcome IsFinished (some (w.counting, novaIoRequestAlloc memory)) calls ↔
      (requestMachine ops).Along (fun st op => ¬ Resubmits ops st op) (some (w, novaIoRequestAlloc memory)) calls := by
  have hforget : (some (w.counting, novaIoRequestAlloc memory)).map forgetCount = some (w, novaIoRequestAlloc memory) :=
    rfl
  rw [Machine.frozen_iff_along, ← hforget, requestMachine, requestMachine, ← projects_counted.along]
  constructor
  · exact Machine.Along.mono fun st op => (outcome_next_iff st op).mp
  · exact Machine.Along.mono fun st op => (outcome_next_iff st op).mpr

/-- A disk with a driver. -/
def ramDisk : World 1 Unit where
  io := programStart fun _ =>
    { name := .ofString "ram", path := .ofString "/dev/ram", type := .block, major := 0, minor := 0, blockOps := some 0
      next := none, prev := none }
  drivers := ()

/-- A driver that has done at once what it is asked. -/
def promptOps : OpsPtr → NovaBlockOps 1 Unit := fun _ => ⟨some fun w _ req => some (0, w, { req with status := .success })⟩

/-- A request that was cancelled is carried out. -/
theorem cancelled_request_executed :
    ¬ (requestMachine (counted promptOps)).Frozen outcome IsFinished
      (some (ramDisk.counting, novaIoRequestAlloc true)) [.fill .read (some 0) 0 (some 0) 512, .cancel, .submit] := by
  intro h
  have hkept := h [.fill .read (some 0) 0 (some 0) 512, .cancel] [.submit] [] rfl ⟨.cancelled, 0, 0, rfl, by decide⟩
  exact absurd hkept (by decide +kernel)

/-! ## Block transfers -/

/-- The request of a transfer, as it is submitted. -/
def blockRequest (type : NovaIoType) (dev : DevPtr pool) (sector : UInt64) (buf : BufPtr) (count : UInt32) :
    NovaIoRequest pool :=
  { type := some type, status := .pending, device := some dev, offset := sector, buffer := some buf
    length := (count * 512).toUInt64, flags := 0, timeoutMs := 5000, errorCode := 0 }

/-- The transfer is refused before there is a request. -/
def RefusedEarly (buf : Option BufPtr) (count : UInt32) (memory : Bool) : Prop := buf = none ∨ count = 0 ∨ memory = false

section Transfers

variable (ops : OpsPtr → NovaBlockOps pool σ) {w : World pool σ} {dev : DevPtr pool} {buf : Option BufPtr} {count : UInt32}
  {memory : Bool}

theorem novaBlockReadSectors_refused (h : RefusedEarly buf count memory) (sector : UInt64) :
    novaBlockReadSectors ops w (some dev) sector buf count memory = some (-1, w) := by
  cases buf with
  | none => rfl
  | some b =>
      rcases h with hbuf | hcount | hmemory
      · cases hbuf
      · exact if_pos hcount
      · rw [novaBlockReadSectors, hmemory]
        exact ite_self _

theorem novaBlockWriteSectors_refused (h : RefusedEarly buf count memory) (sector : UInt64) :
    novaBlockWriteSectors ops w (some dev) sector buf count memory = some (-1, w) := by
  cases buf with
  | none => rfl
  | some b =>
      rcases h with hbuf | hcount | hmemory
      · cases hbuf
      · exact if_pos hcount
      · rw [novaBlockWriteSectors, hmemory]
        exact ite_self _

theorem exists_of_not_refusedEarly (h : ¬ RefusedEarly buf count memory) : ∃ b, buf = some b ∧ count ≠ 0 ∧ memory = true := by
  simp only [RefusedEarly, not_or, Bool.not_eq_false] at h
  obtain ⟨b, hbuf⟩ := Option.ne_none_iff_exists'.mp h.1
  exact ⟨b, hbuf, h.2⟩

/-- The read follows the pointer to the hooks. -/
theorem novaBlockReadSectors_submits (hcount : count ≠ 0) (sector : UInt64) (b : BufPtr) :
    novaBlockReadSectors ops w (some dev) sector (some b) count true =
      if (w.io.devices dev).blockOps = none then none
      else (submitAndWait ops w (some (blockRequest .read dev sector b count))).map fun r => (r.1, r.2.1) :=
  if_neg hcount

theorem novaBlockWriteSectors_submits (hcount : count ≠ 0) (sector : UInt64) (b : BufPtr) :
    novaBlockWriteSectors ops w (some dev) sector (some b) count true =
      (submitAndWait ops w (some (blockRequest .write dev sector b count))).map fun r => (r.1, r.2.1) :=
  if_neg hcount

end Transfers

/-- A transfer that returns 0 has waited for a request that succeeded. -/
def ReportsTruly (call : Option (Int × World pool σ)) (waited : Option (Int × World pool σ × Option (NovaIoRequest pool))) :
    Prop :=
  ∀ w', call = some (0, w') → ∃ result req, waited = some (result, w', some req) ∧ req.status = .success

variable (ops) in
/-- The driver accepts the request, which has not succeeded then and has no error code. -/
def AcceptsUnfinished (w : World pool σ) (dev : DevPtr pool) (req : NovaIoRequest pool) : Prop :=
  ∃ submitIo w' req', w.submitHook ops dev = some submitIo ∧ submitIo w dev req = some (0, w', req') ∧
    req'.status ≠ .success ∧ req'.errorCode = 0

theorem submitAndWait_of_hook {w : World pool σ} {dev : DevPtr pool} {req : NovaIoRequest pool} {submitIo}
    (hdev : req.device = some dev) (hbuf : req.buffer.isSome) (hhook : w.submitHook ops dev = some submitIo) :
    submitAndWait ops w (some req) = (submitIo w dev req).map fun r =>
      (if r.1 = 0 then if r.2.2.status = .success then 0 else r.2.2.errorCode else r.1, r.2.1, some r.2.2) := by
  obtain ⟨buf, hbuf⟩ := Option.isSome_iff_exists.mp hbuf
  have hcall : novaIoSubmit ops w (some req) = (submitIo w dev req).map fun r => (r.1, r.2.1, some r.2.2) := by
    simp only [novaIoSubmit, hdev, hbuf, hhook]
  rw [submitAndWait, hcall]
  cases submitIo w dev req with
  | none => rfl
  | some r =>
      obtain ⟨result, w', req'⟩ := r
      simp only [Option.map_some, Option.bind_some, novaIoWait]
      split <;> rfl

theorem submitAndWait_of_no_hook {w : World pool σ} {dev : DevPtr pool} {req : NovaIoRequest pool}
    (hdev : req.device = some dev) (hbuf : req.buffer.isSome) (hhook : w.submitHook ops dev = none) :
    submitAndWait ops w (some req) = some (-1, w, some { req with status := .error, errorCode := -1 }) := by
  obtain ⟨buf, hbuf⟩ := Option.isSome_iff_exists.mp hbuf
  simp [submitAndWait, novaIoSubmit, hdev, hbuf, hhook]

theorem reportsTruly_submitAndWait_iff (ops : OpsPtr → NovaBlockOps pool σ) (w : World pool σ) {dev : DevPtr pool}
    (req : NovaIoRequest pool) (hdev : req.device = some dev) (hbuf : req.buffer.isSome) :
    ReportsTruly ((submitAndWait ops w (some req)).map fun r => (r.1, r.2.1)) (submitAndWait ops w (some req)) ↔
      ¬ AcceptsUnfinished ops w dev req := by
  cases hhook : w.submitHook ops dev with
  | none =>
      rw [submitAndWait_of_no_hook hdev hbuf hhook]
      simp [ReportsTruly, AcceptsUnfinished, hhook]
  | some submitIo =>
      rw [submitAndWait_of_hook hdev hbuf hhook]
      cases hresult : submitIo w dev req with
      | none => simp [ReportsTruly, AcceptsUnfinished, hhook, hresult]
      | some r =>
          obtain ⟨result, w', req'⟩ := r
          by_cases hzero : result = 0
          · by_cases hsuccess : req'.status = .success
            · simp [ReportsTruly, AcceptsUnfinished, hhook, hresult, hzero, hsuccess]
            · simp [ReportsTruly, AcceptsUnfinished, hhook, hresult, hzero, hsuccess]
          · simp [ReportsTruly, AcceptsUnfinished, hhook, hresult, hzero]

theorem reportsTruly_refused (w : World pool σ) (waited) : ReportsTruly (some (-1, w)) waited := by
  simp [ReportsTruly]

theorem not_accepts_of_refusedEarly {P : Prop} {buf : BufPtr} {count : UInt32} {memory : Bool}
    (h : RefusedEarly (some buf) count memory) : ¬ (count ≠ 0 ∧ memory ∧ P) := by
  rintro ⟨hcount, hmemory, _⟩
  rcases h with hbuf | hzero | hfalse
  · cases hbuf
  · exact hcount hzero
  · rw [hfalse] at hmemory
    cases hmemory

theorem World.submitHook_eq_none {w : World pool σ} {dev : DevPtr pool} (h : (w.io.devices dev).blockOps = none) :
    w.submitHook ops dev = none := by
  unfold submitHook
  split
  · rw [h, Option.bind_none]
  · rfl

theorem read_reports_iff (ops : OpsPtr → NovaBlockOps pool σ) (w : World pool σ) (dev : DevPtr pool) (sector : UInt64)
    (buf : BufPtr) (count : UInt32) (memory : Bool) :
    ReportsTruly (novaBlockReadSectors ops w (some dev) sector (some buf) count memory)
        (submitAndWait ops w (some (blockRequest .read dev sector buf count))) ↔
      ¬ (count ≠ 0 ∧ memory ∧ AcceptsUnfinished ops w dev (blockRequest .read dev sector buf count)) := by
  by_cases hearly : RefusedEarly (some buf) count memory
  · rw [novaBlockReadSectors_refused ops hearly]
    exact iff_of_true (reportsTruly_refused w _) (not_accepts_of_refusedEarly hearly)
  obtain ⟨_, _, hcount, rfl⟩ := exists_of_not_refusedEarly hearly
  rw [novaBlockReadSectors_submits ops hcount]
  simp only [ne_eq, hcount, not_false_eq_true, true_and]
  by_cases hops : (w.io.devices dev).blockOps = none
  · rw [if_pos hops]
    apply iff_of_true
    · intro w' hcall
      cases hcall
    · rintro ⟨submitIo, _, _, hhook, _⟩
      rw [World.submitHook_eq_none hops] at hhook
      cases hhook
  · rw [if_neg hops]
    exact reportsTruly_submitAndWait_iff ops w _ rfl rfl

theorem write_reports_iff (ops : OpsPtr → NovaBlockOps pool σ) (w : World pool σ) (dev : DevPtr pool) (sector : UInt64)
    (buf : BufPtr) (count : UInt32) (memory : Bool) :
    ReportsTruly (novaBlockWriteSectors ops w (some dev) sector (some buf) count memory)
        (submitAndWait ops w (some (blockRequest .write dev sector buf count))) ↔
      ¬ (count ≠ 0 ∧ memory ∧ AcceptsUnfinished ops w dev (blockRequest .write dev sector buf count)) := by
  by_cases hearly : RefusedEarly (some buf) count memory
  · rw [novaBlockWriteSectors_refused ops hearly]
    exact iff_of_true (reportsTruly_refused w _) (not_accepts_of_refusedEarly hearly)
  obtain ⟨_, _, hcount, rfl⟩ := exists_of_not_refusedEarly hearly
  rw [novaBlockWriteSectors_submits ops hcount]
  simp only [ne_eq, hcount, not_false_eq_true, true_and]
  exact reportsTruly_submitAndWait_iff ops w _ rfl rfl

/-- A block transfer reports success only for a request that succeeded, exactly when the driver does not accept it and
leave it unfinished without an error code. -/
theorem block_transfer_reports_iff (ops : OpsPtr → NovaBlockOps pool σ) (w : World pool σ) (dev : DevPtr pool)
    (sector : UInt64) (buf : BufPtr) (count : UInt32) (memory : Bool) :
    (ReportsTruly (novaBlockReadSectors ops w (some dev) sector (some buf) count memory)
        (submitAndWait ops w (some (blockRequest .read dev sector buf count))) ↔
      ¬ (count ≠ 0 ∧ memory ∧ AcceptsUnfinished ops w dev (blockRequest .read dev sector buf count))) ∧
    (ReportsTruly (novaBlockWriteSectors ops w (some dev) sector (some buf) count memory)
        (submitAndWait ops w (some (blockRequest .write dev sector buf count))) ↔
      ¬ (count ≠ 0 ∧ memory ∧ AcceptsUnfinished ops w dev (blockRequest .write dev sector buf count))) :=
  ⟨read_reports_iff ops w dev sector buf count memory, write_reports_iff ops w dev sector buf count memory⟩

/-- A driver that queues what it is asked. -/
def queuingOps : OpsPtr → NovaBlockOps 1 Unit := fun _ => ⟨some fun w _ req => some (0, w, req)⟩

/-- A read of which nothing was done reports success. -/
theorem queued_read_reported :
    ¬ ReportsTruly (novaBlockReadSectors queuingOps ramDisk (some 0) 0 (some 0) 1 true)
      (submitAndWait queuingOps ramDisk (some (blockRequest .read 0 0 0 1))) := by
  intro h
  obtain ⟨result, req, hwaited, hsuccess⟩ := h ramDisk rfl
  cases hwaited
  cases hsuccess

/-! ## Lengths of transfers -/

/-- The `submit_io` of a driver. -/
abbrev SubmitIo (pool : Nat) (σ : Type*) :=
  World pool σ → DevPtr pool → NovaIoRequest pool → Option (Int × World pool σ × NovaIoRequest pool)

/-- What a transfer makes of the answer of the driver. -/
def transferAnswer (r : Int × World pool σ × NovaIoRequest pool) : Int × World pool σ :=
  (if r.1 = 0 then if r.2.2.status = .success then 0 else r.2.2.errorCode else r.1, r.2.1)

/-- Whatever the driver does, the transfer is refused without it, or it gives the driver one request, whose length is that
of the sectors, and answers as the driver does. -/
def ExactTransfer (w : World pool σ) (dev : DevPtr pool) (count : UInt32)
    (transfer : SubmitIo pool σ → Option (Int × World pool σ)) : Prop :=
  (∃ result w', result ≠ 0 ∧ ∀ submitIo, transfer submitIo = some (result, w')) ∨
    ∃ req : NovaIoRequest pool, req.length.toNat = 512 * count.toNat ∧
      ∀ submitIo, transfer submitIo = (submitIo w dev req).map transferAnswer

section Lengths

variable {w : World pool σ} {dev : DevPtr pool} {p : OpsPtr} {count : UInt32}
  {transfer : SubmitIo pool σ → Option (Int × World pool σ)}

theorem blockRequest_length_iff (type : NovaIoType) (dev : DevPtr pool) (sector : UInt64) (buf : BufPtr) (count : UInt32) :
    (blockRequest type dev sector buf count).length.toNat = 512 * count.toNat ↔ count.toNat < 2 ^ 23 := by
  have hlength : (blockRequest type dev sector buf count).length.toNat = count.toNat * 512 % 2 ^ 32 := by
    simp [blockRequest]
  rw [hlength]
  omega

theorem exactTransfer_of_refused (h : ∀ submitIo, transfer submitIo = some (-1, w)) : ExactTransfer w dev count transfer :=
  .inl ⟨-1, w, by decide, h⟩

/-- The request that a transfer gives the driver is the only one that can be meant. -/
theorem exactTransfer_iff_length {req : NovaIoRequest pool}
    (h : ∀ submitIo, transfer submitIo = (submitIo w dev req).map transferAnswer) :
    ExactTransfer w dev count transfer ↔ req.length.toNat = 512 * count.toNat := by
  constructor
  · rintro (⟨result, w', _, hrefused⟩ | ⟨req', hlength, hsubmits⟩)
    · -- A driver that does not return is asked.
      have hcall := (h fun _ _ _ => none).symm.trans (hrefused _)
      cases hcall
    · -- A driver that returns for this request only gets this one.
      have hcall := (h fun w _ r => if r = req then some (0, w, r) else none).symm.trans (hsubmits _)
      simp only [if_pos] at hcall
      by_cases hsame : req' = req
      · rw [← hsame]
        exact hlength
      · rw [if_neg hsame] at hcall
        cases hcall
  · intro hlength
    exact .inr ⟨req, hlength, h⟩

theorem submitHook_update (ops : OpsPtr → NovaBlockOps pool σ) (submitIo : SubmitIo pool σ)
    (htype : (w.io.devices dev).type = .block) (hops : (w.io.devices dev).blockOps = some p) :
    w.submitHook (Function.update ops p ⟨some submitIo⟩) dev = some submitIo := by
  rw [World.submitHook, htype, hops]
  simp

theorem submitAndWait_update (ops : OpsPtr → NovaBlockOps pool σ) (submitIo : SubmitIo pool σ) (type : NovaIoType)
    (sector : UInt64) (buf : BufPtr) (count : UInt32)
    (htype : (w.io.devices dev).type = .block) (hops : (w.io.devices dev).blockOps = some p) :
    ((submitAndWait (Function.update ops p ⟨some submitIo⟩) w (some (blockRequest type dev sector buf count))).map
        fun r => (r.1, r.2.1)) = (submitIo w dev (blockRequest type dev sector buf count)).map transferAnswer := by
  rw [submitAndWait_of_hook rfl rfl (submitHook_update ops submitIo htype hops), Option.map_map]
  rfl

/-- A transfer that is refused early, or else makes its request, is exact as long as 512 times the count fits. -/
theorem exactTransfer_iff {buf : Option BufPtr} {memory : Bool} (type : NovaIoType) (sector : UInt64)
    (hrefused : RefusedEarly buf count memory → ∀ submitIo, transfer submitIo = some (-1, w))
    (hsubmits : ¬ RefusedEarly buf count memory → ∃ b, ∀ submitIo,
      transfer submitIo = (submitIo w dev (blockRequest type dev sector b count)).map transferAnswer) :
    ExactTransfer w dev count transfer ↔ buf = none ∨ memory = false ∨ count.toNat < 2 ^ 23 := by
  by_cases hearly : RefusedEarly buf count memory
  · refine iff_of_true (exactTransfer_of_refused (hrefused hearly)) ?_
    rcases hearly with hbuf | hcount | hmemory
    · exact .inl hbuf
    · exact .inr (.inr (by simp [hcount]))
    · exact .inr (.inl hmemory)
  · obtain ⟨b, hcall⟩ := hsubmits hearly
    rw [exactTransfer_iff_length hcall, blockRequest_length_iff]
    constructor
    · intro hfits
      exact .inr (.inr hfits)
    · rintro (hbuf | hmemory | hfits)
      · exact absurd (.inl hbuf) hearly
      · exact absurd (.inr (.inr hmemory)) hearly
      · exact hfits

theorem read_exact_iff (ops : OpsPtr → NovaBlockOps pool σ) (htype : (w.io.devices dev).type = .block)
    (hops : (w.io.devices dev).blockOps = some p) (sector : UInt64) (buf : Option BufPtr) (count : UInt32) (memory : Bool) :
    ExactTransfer w dev count (fun submitIo =>
        novaBlockReadSectors (Function.update ops p ⟨some submitIo⟩) w (some dev) sector buf count memory) ↔
      buf = none ∨ memory = false ∨ count.toNat < 2 ^ 23 := by
  apply exactTransfer_iff .read sector
  · intro hearly submitIo
    exact novaBlockReadSectors_refused _ hearly sector
  · intro hearly
    obtain ⟨b, rfl, hcount, rfl⟩ := exists_of_not_refusedEarly hearly
    refine ⟨b, fun submitIo => ?_⟩
    rw [novaBlockReadSectors_submits _ hcount, hops, if_neg (Option.some_ne_none p)]
    exact submitAndWait_update ops submitIo .read sector b count htype hops

theorem write_exact_iff (ops : OpsPtr → NovaBlockOps pool σ) (htype : (w.io.devices dev).type = .block)
    (hops : (w.io.devices dev).blockOps = some p) (sector : UInt64) (buf : Option BufPtr) (count : UInt32) (memory : Bool) :
    ExactTransfer w dev count (fun submitIo =>
        novaBlockWriteSectors (Function.update ops p ⟨some submitIo⟩) w (some dev) sector buf count memory) ↔
      buf = none ∨ memory = false ∨ count.toNat < 2 ^ 23 := by
  apply exactTransfer_iff .write sector
  · intro hearly submitIo
    exact novaBlockWriteSectors_refused _ hearly sector
  · intro hearly
    obtain ⟨b, rfl, hcount, rfl⟩ := exists_of_not_refusedEarly hearly
    refine ⟨b, fun submitIo => ?_⟩
    rw [novaBlockWriteSectors_submits _ hcount]
    exact submitAndWait_update ops submitIo .write sector b count htype hops

end Lengths

/-- A block transfer is refused or is one of just its sectors exactly when their bytes are less than 2 ^ 32, or it has no
buffer or no memory for its request. -/
theorem block_transfer_exact_iff (ops : OpsPtr → NovaBlockOps pool σ) (w : World pool σ) (dev : DevPtr pool) (p : OpsPtr)
    (htype : (w.io.devices dev).type = .block) (hops : (w.io.devices dev).blockOps = some p) (sector : UInt64)
    (buf : Option BufPtr) (count : UInt32) (memory : Bool) :
    (ExactTransfer w dev count (fun submitIo =>
        novaBlockReadSectors (Function.update ops p ⟨some submitIo⟩) w (some dev) sector buf count memory) ↔
      buf = none ∨ memory = false ∨ count.toNat < 2 ^ 23) ∧
    (ExactTransfer w dev count (fun submitIo =>
        novaBlockWriteSectors (Function.update ops p ⟨some submitIo⟩) w (some dev) sector buf count memory) ↔
      buf = none ∨ memory = false ∨ count.toNat < 2 ^ 23) :=
  ⟨read_exact_iff ops htype hops sector buf count memory, write_exact_iff ops htype hops sector buf count memory⟩

theorem block_transfer_exact_iff_ramDisk :
    (ExactTransfer ramDisk 0 8 (fun submitIo =>
        novaBlockReadSectors (Function.update promptOps 0 ⟨some submitIo⟩) ramDisk (some 0) 0 (some 0) 8 true) ↔
      some 0 = none ∨ true = false ∨ (8 : UInt32).toNat < 2 ^ 23) ∧
    (ExactTransfer ramDisk 0 8 (fun submitIo =>
        novaBlockWriteSectors (Function.update promptOps 0 ⟨some submitIo⟩) ramDisk (some 0) 0 (some 0) 8 true) ↔
      some 0 = none ∨ true = false ∨ (8 : UInt32).toNat < 2 ^ 23) :=
  block_transfer_exact_iff promptOps ramDisk 0 0 rfl rfl 0 (some 0) 8 true

/-- A read of 4 GiB is made as one of no bytes. -/
theorem long_read_empty : ¬ ExactTransfer ramDisk 0 8388608 (fun submitIo =>
    novaBlockReadSectors (Function.update promptOps 0 ⟨some submitIo⟩) ramDisk (some 0) 0 (some 0) 8388608 true) := by
  intro h
  rcases (read_exact_iff promptOps rfl rfl 0 (some 0) 8388608 true).mp h with hbuf | hmemory | hfits
  · cases hbuf
  · cases hmemory
  · exact absurd hfits (by decide)

end NovaOs.Io
