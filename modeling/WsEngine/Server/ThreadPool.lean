import WsEngine.Lib.EventSystem
import WsEngine.Lib.RoundRobin

/-! # The threads that connections are spread over

`ws::EventLoopThreadPool` (`src/EventLoopThreadPool.cpp`), behind `TcpServer::setNumberThreads` and
`getWorkerLoop`. Threads are only ever added, and so are their loops, but `setThreadNums` looks the
threads up from the first one on: when it adds to threads that are there, their loops are listed once
more in place of those of the new threads. So the loops go round fairly as long as all threads are
made by one call. -/
set_option autoImplicit false

namespace WsEngine

/-- An `EventLoopThread` with the loop that its constructor makes. -/
structure EventLoopThread (Loop : Type) where
  loop_ : Loop

def EventLoopThread.startLoop {Loop : Type} (thread : EventLoopThread Loop) : Loop := thread.loop_

structure EventLoopThreadPool (Loop : Type) where
  threadList_ : List (EventLoopThread Loop)
  loopList_ : List Loop
  next_ : ℕ
  baseLoop_ : Loop

/-- An index beyond the end of a vector. -/
inductive PoolFault
  | threadList | loopList

inductive PoolEvent
  | setThreadNums (threadNums : ℕ)
  | getNextLoop

namespace EventLoopThreadPool

variable {Loop : Type}

/-- As the constructor leaves it. -/
def initial (loop : Loop) : EventLoopThreadPool Loop := ⟨[], [], 0, loop⟩

def getNextLoop (pool : EventLoopThreadPool Loop) :
    Except PoolFault (Loop × EventLoopThreadPool Loop) :=
  if pool.threadList_ = [] then .ok (pool.baseLoop_, pool)
  else
    match pool.loopList_[pool.next_]? with
    | some loop => .ok (loop, { pool with
        next_ := if pool.next_ + 1 = pool.loopList_.length then 0 else pool.next_ + 1 })
    | none => .error .loopList

/-- What `n` calls in a row return. -/
def getNextLoops (pool : EventLoopThreadPool Loop) :
    ℕ → Except PoolFault (List Loop × EventLoopThreadPool Loop)
  | 0 => .ok ([], pool)
  | n + 1 => do
    let (loop, pool) ← pool.getNextLoop
    let (loops, pool) ← pool.getNextLoops n
    return (loop :: loops, pool)

section
-- the loop of each thread that is made, one after another
variable (uv_loop_new : ℕ → Loop)

/-- The body of the loop in `setThreadNums`. -/
def addThread (pool : EventLoopThreadPool Loop) (i : ℕ) :
    Except PoolFault (EventLoopThreadPool Loop) :=
  let threadList := pool.threadList_ ++ [⟨uv_loop_new pool.threadList_.length⟩]
  match threadList[i]? with
  | some thread => .ok { pool with
      threadList_ := threadList
      loopList_ := pool.loopList_ ++ [thread.startLoop] }
  | none => .error .threadList

def addThreads (pool : EventLoopThreadPool Loop) (i : ℕ) :
    ℕ → Except PoolFault (EventLoopThreadPool Loop)
  | 0 => .ok pool
  | n + 1 => do
    let pool ← pool.addThread uv_loop_new i
    pool.addThreads (i + 1) n

def setThreadNums (pool : EventLoopThreadPool Loop) (threadNums : ℕ) :
    Except PoolFault (EventLoopThreadPool Loop) := pool.addThreads uv_loop_new 0 threadNums

def step (pool : EventLoopThreadPool Loop) :
    PoolEvent → Except PoolFault (EventLoopThreadPool Loop)
  | .setThreadNums threadNums => pool.setThreadNums uv_loop_new threadNums
  | .getNextLoop => pool.getNextLoop.map Prod.snd

def system : EventSystem (EventLoopThreadPool Loop) PoolEvent PoolFault where
  enabled := fun _ _ => True
  step := step uv_loop_new

end

/-! ## The specification -/

def threadLoops (pool : EventLoopThreadPool Loop) : List Loop := pool.threadList_.map (·.loop_)

/-- The loops are those of the threads, in their order, and as many calls of `getNextLoop` as there are
threads return each of them once. -/
structure Assigned (pool : EventLoopThreadPool Loop) : Prop where
  length : pool.loopList_.length = pool.threadList_.length
  loops : ∀ (i : ℕ) (thread : EventLoopThread Loop), pool.threadList_[i]? = some thread →
    pool.loopList_[i]? = some thread.loop_
  next : pool.threadList_ ≠ [] → pool.next_ < pool.loopList_.length
  fair : pool.threadList_ ≠ [] → ∃ loops pool',
    pool.getNextLoops pool.threadList_.length = .ok (loops, pool') ∧ loops.Nodup ∧
      loops.Perm pool.threadLoops

/-- Threads are added to an empty pool. -/
def Once (pool : EventLoopThreadPool Loop) : PoolEvent → Prop
  | .setThreadNums threadNums => pool.threadList_ = [] ∨ threadNums = 0
  | .getNextLoop => True

instance (pool : EventLoopThreadPool Loop) : DecidablePred pool.Once
  | .setThreadNums _ => inferInstanceAs (Decidable (_ ∨ _))
  | .getNextLoop => isTrue trivial

/-! ## What is added -/

variable (uv_loop_new : ℕ → Loop)

/-- The first `n` threads that are made. -/
def made (n : ℕ) : List (EventLoopThread Loop) := (List.range n).map fun i => ⟨uv_loop_new i⟩

theorem made_succ (n : ℕ) : made uv_loop_new (n + 1) = made uv_loop_new n ++ [⟨uv_loop_new n⟩] := by
  unfold made
  rw [List.range_succ, List.map_append, List.map_singleton]

theorem length_made (n : ℕ) : (made uv_loop_new n).length = n := by
  rw [made, List.length_map, List.length_range]

theorem made_getElem? {n i : ℕ} (h : i < n) : (made uv_loop_new n)[i]? = some ⟨uv_loop_new i⟩ := by
  rw [made, List.getElem?_map, List.getElem?_range h]
  rfl

theorem addThread_eq {pool : EventLoopThreadPool Loop} {m i : ℕ}
    (hthreads : pool.threadList_ = made uv_loop_new m) (hi : i ≤ m) :
    pool.addThread uv_loop_new i = .ok { pool with
      threadList_ := made uv_loop_new (m + 1)
      loopList_ := pool.loopList_ ++ [uv_loop_new i] } := by
  unfold addThread
  rw [hthreads, length_made, ← made_succ]
  simp only [made_getElem? uv_loop_new (Nat.lt_succ_of_le hi)]
  rfl

/-- The loops that are added are those of the threads from `i` on. -/
theorem addThreads_eq {pool : EventLoopThreadPool Loop} {m i : ℕ} (n : ℕ)
    (hthreads : pool.threadList_ = made uv_loop_new m) (hi : i ≤ m) :
    pool.addThreads uv_loop_new i n = .ok { pool with
      threadList_ := made uv_loop_new (m + n)
      loopList_ := pool.loopList_ ++ (List.range' i n).map uv_loop_new } := by
  induction n generalizing pool m i with
  | zero =>
    rw [addThreads, Nat.add_zero, ← hthreads, List.range'_zero, List.map_nil, List.append_nil]
  | succ n ih =>
    rw [addThreads, addThread_eq uv_loop_new hthreads hi]
    have hcount : m + 1 + n = m + (n + 1) := by omega
    refine (ih rfl (Nat.succ_le_succ hi)).trans ?_
    rw [List.range'_succ, List.map_cons, List.append_assoc, List.singleton_append, ← hcount]

/-! ## What is returned -/

theorem getNextLoop_eq {pool : EventLoopThreadPool Loop} (hne : pool.threadList_ ≠ [])
    {loop : Loop} (hloop : pool.loopList_[pool.next_]? = some loop) :
    pool.getNextLoop = .ok (loop, { pool with
      next_ := RoundRobin.next pool.loopList_.length pool.next_ }) := by
  unfold getNextLoop
  rw [if_neg hne, hloop]
  rfl

theorem getNextLoops_eq {pool : EventLoopThreadPool Loop} (hne : pool.threadList_ ≠ [])
    (hnext : pool.next_ < pool.loopList_.length) (n : ℕ) :
    ∃ pool', pool.getNextLoops n = .ok (RoundRobin.turns pool.loopList_ n pool.next_, pool') := by
  induction n generalizing pool with
  | zero => exact ⟨pool, rfl⟩
  | succ n ih =>
    have hloop := List.getElem?_eq_getElem hnext
    obtain ⟨pool', hrest⟩ := @ih { pool with
      next_ := RoundRobin.next pool.loopList_.length pool.next_ } hne (RoundRobin.next_lt hnext)
    refine ⟨pool', ?_⟩
    rw [getNextLoops, getNextLoop_eq hne hloop, RoundRobin.turns, hloop]
    simp only [bind, Except.bind, hrest]
    rfl

/-! ## The invariant -/

/-- The pool after `n` threads were made by one call. -/
structure Inv (pool : EventLoopThreadPool Loop) (n : ℕ) : Prop where
  threads : pool.threadList_ = made uv_loop_new n
  loops : pool.loopList_ = (List.range n).map uv_loop_new
  next : pool.next_ = 0 ∨ pool.next_ < n

variable {uv_loop_new}

theorem Inv.threadList_eq_nil {pool : EventLoopThreadPool Loop} {n : ℕ}
    (h : pool.Inv uv_loop_new n) : pool.threadList_ = [] ↔ n = 0 := by
  rw [h.threads, ← List.length_eq_zero_iff, length_made]

theorem Inv.length {pool : EventLoopThreadPool Loop} {n : ℕ} (h : pool.Inv uv_loop_new n) :
    pool.loopList_.length = n := by
  rw [h.loops, List.length_map, List.length_range]

theorem Inv.next_lt {pool : EventLoopThreadPool Loop} {n : ℕ} (h : pool.Inv uv_loop_new n)
    (hne : pool.threadList_ ≠ []) : pool.next_ < pool.loopList_.length := by
  have hpos : n ≠ 0 := fun hn => hne (h.threadList_eq_nil.mpr hn)
  have hnext := h.next
  rw [h.length]
  omega

theorem Inv.assigned {pool : EventLoopThreadPool Loop} {n : ℕ} (h : pool.Inv uv_loop_new n)
    (hdistinct : Function.Injective uv_loop_new) : pool.Assigned := by
  have hthreads : pool.threadList_.length = n := by rw [h.threads, length_made]
  refine ⟨h.length.trans hthreads.symm, ?_, h.next_lt, fun hne => ?_⟩
  · intro i thread hi
    have hlt : i < n := by
      rw [← hthreads]
      exact (List.getElem?_eq_some_iff.mp hi).1
    rw [h.threads, made_getElem? uv_loop_new hlt] at hi
    cases hi
    rw [h.loops, List.getElem?_map, List.getElem?_range hlt]
    rfl
  · obtain ⟨pool', hloops⟩ := getNextLoops_eq hne (h.next_lt hne) n
    refine ⟨_, pool', hthreads ▸ hloops, ?_⟩
    have hround := RoundRobin.turns_length (h.next_lt hne)
    rw [h.length] at hround
    have hall : pool.threadLoops = pool.loopList_ := by
      rw [threadLoops, h.threads, h.loops, made, List.map_map]
      rfl
    rw [hthreads, hround, hall, List.nodup_rotate]
    refine ⟨?_, List.rotate_perm _ _⟩
    rw [h.loops]
    exact List.nodup_range.map hdistinct

theorem Inv.step {pool pool' : EventLoopThreadPool Loop} {n : ℕ} (h : pool.Inv uv_loop_new n)
    {e : PoolEvent} (honce : pool.Once e) (hstep : pool.step uv_loop_new e = .ok pool') :
    ∃ n', pool'.Inv uv_loop_new n' := by
  cases e with
  | setThreadNums threadNums =>
    have hadded := addThreads_eq uv_loop_new threadNums h.threads (Nat.zero_le n)
    rw [EventLoopThreadPool.step, setThreadNums, hadded] at hstep
    cases hstep
    have hnext := h.next
    rcases honce with hnil | rfl
    · obtain rfl := h.threadList_eq_nil.mp hnil
      have hfirst : pool.next_ = 0 := by omega
      refine ⟨threadNums, ⟨by rw [Nat.zero_add], ?_, .inl hfirst⟩⟩
      rw [h.loops, @List.range_eq_range' threadNums]
      rfl
    · exact ⟨n, ⟨rfl, by rw [List.range'_zero, List.map_nil, List.append_nil, h.loops], hnext⟩⟩
  | getNextLoop =>
    obtain ⟨⟨loop, pool''⟩, hget, rfl⟩ := Except.map_eq_ok.mp hstep
    by_cases hnil : pool.threadList_ = []
    · rw [getNextLoop, if_pos hnil] at hget
      cases hget
      exact ⟨n, h⟩
    · have hlt := h.next_lt hnil
      rw [getNextLoop_eq hnil (List.getElem?_eq_getElem hlt)] at hget
      cases hget
      refine ⟨n, ⟨h.threads, h.loops, .inr ?_⟩⟩
      rw [← h.length]
      exact RoundRobin.next_lt hlt

theorem Inv.exists_step {pool : EventLoopThreadPool Loop} {n : ℕ} (h : pool.Inv uv_loop_new n)
    (e : PoolEvent) : ∃ pool', pool.step uv_loop_new e = .ok pool' := by
  cases e with
  | setThreadNums threadNums =>
    exact ⟨_, addThreads_eq uv_loop_new threadNums h.threads (Nat.zero_le n)⟩
  | getNextLoop =>
    by_cases hnil : pool.threadList_ = []
    · refine ⟨pool, ?_⟩
      rw [EventLoopThreadPool.step, getNextLoop, if_pos hnil]
      rfl
    · have hget := getNextLoop_eq hnil (List.getElem?_eq_getElem (h.next_lt hnil))
      exact ⟨_, congrArg (Except.map Prod.snd) hget⟩

/-- Behind threads that are there, the first loop takes the place of the next one. -/
theorem Inv.not_assigned {pool pool' : EventLoopThreadPool Loop} {n threadNums : ℕ}
    (h : pool.Inv uv_loop_new n) (hdistinct : Function.Injective uv_loop_new)
    (hne : pool.threadList_ ≠ []) (hpos : threadNums ≠ 0)
    (hstep : pool.step uv_loop_new (.setThreadNums threadNums) = .ok pool') : ¬ pool'.Assigned := by
  intro hassigned
  have hadded := addThreads_eq uv_loop_new threadNums h.threads (Nat.zero_le n)
  rw [EventLoopThreadPool.step, setThreadNums, hadded] at hstep
  cases hstep
  have hloop := hassigned.loops n _ (made_getElem? uv_loop_new (by omega))
  have hfirst : (pool.loopList_ ++ (List.range' 0 threadNums).map uv_loop_new)[n]? =
      some (uv_loop_new 0) := by
    rw [List.getElem?_append_right (le_of_eq h.length), h.length, Nat.sub_self, List.getElem?_map,
      List.getElem?_range' (Nat.pos_of_ne_zero hpos)]
    rfl
  have hsame := hdistinct (Option.some.inj (hfirst.symm.trans hloop))
  exact hne (h.threadList_eq_nil.mpr hsame.symm)

/-- **One step** assigns the loops iff it adds no threads to others. -/
theorem Inv.assigned_step_iff {pool : EventLoopThreadPool Loop} {n : ℕ} (h : pool.Inv uv_loop_new n)
    (hdistinct : Function.Injective uv_loop_new) (e : PoolEvent) :
    (pool.step uv_loop_new e).Ends Assigned (fun _ => False) ↔ pool.Once e := by
  obtain ⟨pool', hstep⟩ := h.exists_step e
  rw [hstep, Except.ends_ok]
  constructor
  · intro hassigned
    by_contra honce
    cases e with
    | setThreadNums threadNums =>
      obtain ⟨hne, hpos⟩ := not_or.mp honce
      exact h.not_assigned hdistinct hne hpos hstep hassigned
    | getNextLoop => exact honce trivial
  · intro honce
    obtain ⟨n', hinv⟩ := h.step honce hstep
    exact hinv.assigned hdistinct

theorem initial_inv (loop : Loop) : (initial loop).Inv uv_loop_new 0 := ⟨rfl, rfl, .inl rfl⟩

/-- **Round-robin assignment.** -/
theorem assigned_iff (hdistinct : Function.Injective uv_loop_new) (loop : Loop)
    (es : List PoolEvent) :
    (∀ p ∈ (system uv_loop_new).steps (initial loop) es,
        ((system uv_loop_new).step p.1 p.2).Ends Assigned fun _ => False) ↔
      ∀ p ∈ (system uv_loop_new).steps (initial loop) es, p.1.Once p.2 :=
  (system uv_loop_new).forall_steps_iff (fun pool => ∃ n, pool.Inv uv_loop_new n) Once _
    (fun _ _ _ ⟨_, hinv⟩ _ honce hstep => hinv.step honce hstep)
    (fun _ e ⟨_, hinv⟩ _ => hinv.assigned_step_iff hdistinct e) ⟨0, initial_inv loop⟩
    ((system uv_loop_new).legal_of_enabled (fun _ _ => trivial) _ es)

/-- Three threads from one call, and a turn. -/
theorem assigned_iff_three :
    Function.Injective (id : ℕ → ℕ) ∧
      ((∀ p ∈ (system id).steps (initial 0) [.setThreadNums 0, .setThreadNums 3, .getNextLoop],
          ((system id).step p.1 p.2).Ends Assigned fun _ => False) ↔
        ∀ p ∈ (system id).steps (initial 0) [.setThreadNums 0, .setThreadNums 3, .getNextLoop],
          p.1.Once p.2) :=
  ⟨Function.injective_id, assigned_iff Function.injective_id 0 _⟩

/-- One thread, and then one more. -/
theorem not_assigned_twice :
    ¬ ∀ p ∈ (system id).steps (initial 0) [.setThreadNums 1, .setThreadNums 1],
      ((system id).step p.1 p.2).Ends Assigned fun _ => False := by
  intro h
  have hinitial : (initial 0).Inv id 0 := initial_inv 0
  obtain ⟨pool, hstep⟩ := hinitial.exists_step (.setThreadNums 1)
  have honce : (initial 0).Once (.setThreadNums 1) := Or.inl rfl
  obtain ⟨n, hinv⟩ := hinitial.step honce hstep
  have hne : pool.threadList_ ≠ [] := by
    cases hstep
    exact List.cons_ne_nil _ _
  obtain ⟨pool', hagain⟩ := hinv.exists_step (.setThreadNums 1)
  have hok : (system id).step (initial 0) (.setThreadNums 1) = .ok pool := hstep
  have hassigned := h (pool, .setThreadNums 1) (by
    rw [(system id).steps_cons_ok _ hok, (system id).steps_singleton]
    exact List.mem_cons_of_mem _ (List.mem_singleton_self _))
  have hends : (pool.step id (.setThreadNums 1)).Ends Assigned fun _ => False := hassigned
  rw [hagain, Except.ends_ok] at hends
  exact hinv.not_assigned Function.injective_id hne Nat.one_ne_zero hagain hends

end EventLoopThreadPool
end WsEngine
