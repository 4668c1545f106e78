import Mathlib.Data.Rat.Floor
import Mathlib.Tactic.NormNum
import Shyake.Go.Netip
import Shyake.Lib.TokenBucket

/-!
# The rate limit

A token bucket for each client, in exact arithmetic. Buckets nobody has used for ten minutes are
dropped, and the client's next one is full again.
-/

namespace Shyake.Go

open Netip (Addr prefix64)

/-- `SHYAKE_RATE_LIMIT` and `SHYAKE_RATE_BURST` as `config.Load` accepts them. -/
structure RateConfig where
  rateLimit : ℚ
  rateBurst : Nat
  rateLimit_pos : 0 < rateLimit
  rateBurst_pos : 0 < rateBurst

/-- A time as a number of seconds, and a `time.Duration` as one. -/
def Time.secs (t : Time) : ℚ := t.ns / 1000000000
def secs (d : Nat) : ℚ := d / 1000000000

/-! ## `golang.org/x/time/rate` -/

/-- `rate.Limiter`; `none` is the zero time. -/
structure RateLimiter where
  tokens : ℚ
  last : Option Time

namespace RateLimiter

variable (r : ℚ) (burst : Nat)

def new : RateLimiter := ⟨burst, none⟩

/-- `t.Sub(last)`, which saturates for the zero time, and nothing when `t` is the earlier one. -/
def elapsed (lim : RateLimiter) (t : Time) : Nat :=
  match lim.last with
  | none => 2 ^ 63 - 1
  | some last => t.ns - last.ns

/-- The tokens `advance` finds at `t`. -/
def advance (lim : RateLimiter) (t : Time) : ℚ :=
  TokenBucket.level r burst lim.tokens (secs (lim.elapsed t))

/-- `AllowN(t, 1)`. -/
def allowN (lim : RateLimiter) (t : Time) : Bool × RateLimiter :=
  let tokens := lim.advance r burst t - 1
  if 1 ≤ burst ∧ 0 ≤ tokens then (true, ⟨tokens, some t⟩) else (false, lim)

end RateLimiter

/-! ## `server.go` -/

structure Bucket where
  l : RateLimiter
  used : Time

/-- `limiter`; its rate and burst are the configuration's. -/
structure Limiter where
  buckets : Addr → Option Bucket
  lastSweep : Option Time

/-- What a client is counted by: IPv6 clients share the bucket of their /64. -/
def clientKey (ip : Addr) : Addr :=
  match ip with
  | .v6 a _ => (prefix64 a).addr
  | _ => ip

namespace Limiter

variable (cfg : RateConfig)

/-- `newLimiter`. -/
def new : Limiter := ⟨fun _ => none, none⟩

def minute : Nat := seconds 60

/-- The first part of `allow`: once a minute the buckets that were idle for more than ten go. -/
def sweep (l : Limiter) (now : Time) : Limiter :=
  if l.lastSweep.all fun last => now.sub last > minute then
    { buckets := fun k => (l.buckets k).filter fun b => ¬now.sub b.used > 10 * minute,
      lastSweep := some now }
  else l

def allow (l : Limiter) (ip : Addr) (now : Time) : Bool × Limiter :=
  let ip := clientKey ip
  let l := l.sweep now
  let b := (l.buckets ip).getD ⟨.new cfg.rateBurst, now⟩
  let (ok, lim) := b.l.allowN cfg.rateLimit cfg.rateBurst now
  (ok, { l with buckets := Function.update l.buckets ip (some ⟨lim, now⟩) })

/-! ## Runs -/

/-- A call of `allow`. -/
structure Call where
  ip : Addr
  now : Time

/-- The calls one after the other, each with its answer. -/
def serve : Limiter → List Call → List (Call × Bool)
  | _, [] => []
  | l, call :: calls =>
    let (ok, l) := l.allow cfg call.ip call.now
    (call, ok) :: serve l calls

/-- How many calls of a client were allowed from `start` to `stop`. -/
def allowedIn (key : Addr) (start stop : ℚ) (answers : List (Call × Bool)) : Nat :=
  answers.countP fun (call, ok) =>
    ok && clientKey call.ip == key && start ≤ call.now.secs && call.now.secs ≤ stop

/-- The times of the calls do not decrease. -/
def Chronological (calls : List Call) : Prop := calls.Pairwise fun a b => a.now ≤ b.now

/-! ## The level of a client's bucket -/

/-- The tokens a client has at a time: a full bucket when it has none of its own. -/
def levelOf (l : Limiter) (key : Addr) (t : Time) : ℚ :=
  match l.buckets key with
  | none => cfg.rateBurst
  | some b => b.l.advance cfg.rateLimit cfg.rateBurst t

/-- A bucket is not overdrawn, and was not drawn from after its last use. -/
structure Bucket.Kept (b : Bucket) (clock : Time) : Prop where
  tokens : 0 ≤ b.l.tokens
  drawn : ∀ last, b.l.last = some last → last ≤ b.used
  used : b.used ≤ clock

/-- At a time no earlier than the last call, every bucket is as it should be. -/
def Kept (l : Limiter) (clock : Time) : Prop :=
  ∀ key b, l.buckets key = some b → Bucket.Kept b clock

/-- What is refilled in the time after which a bucket may be dropped. -/
def Refilled : Prop := (cfg.rateBurst : ℚ) ≤ cfg.rateLimit * secs (10 * minute + 1)

variable {cfg}

theorem new_kept (clock : Time) : new.Kept clock := by
  intro key b h
  cases h

theorem secs_nonneg (d : Nat) : 0 ≤ secs d := by
  unfold secs
  positivity

theorem secs_le {d d' : Nat} (h : d ≤ d') : secs d ≤ secs d' := by
  unfold secs
  gcongr

theorem secs_sub {t t' : Time} (h : t ≤ t') : secs (t'.ns - t.ns) = t'.secs - t.secs := by
  rw [secs, Time.secs, Time.secs, Nat.cast_sub h]
  ring

theorem secs_mono {t t' : Time} (h : t ≤ t') : t.secs ≤ t'.secs := by
  have := secs_nonneg (t'.ns - t.ns)
  rw [secs_sub h] at this
  linarith

theorem levelOf_le (l : Limiter) (key : Addr) (t : Time) : l.levelOf cfg key t ≤ cfg.rateBurst := by
  unfold levelOf
  split
  · exact le_refl _
  · exact TokenBucket.level_le_burst _ _

theorem levelOf_nonneg {l : Limiter} {clock : Time} (kept : l.Kept clock) (key : Addr) (t : Time) :
    0 ≤ l.levelOf cfg key t := by
  unfold levelOf
  split
  · positivity
  · rename_i b held
    exact TokenBucket.level_nonneg cfg.rateLimit_pos.le (by positivity) (kept key b held).tokens
      (secs_nonneg _)

/-- A client's level rises no faster than at the rate. -/
theorem levelOf_later (l : Limiter) (key : Addr) {t t' : Time} (h : t ≤ t') :
    l.levelOf cfg key t' ≤ l.levelOf cfg key t + cfg.rateLimit * (t'.secs - t.secs) := by
  have later : 0 ≤ t'.secs - t.secs := by
    rw [← secs_sub h]
    exact secs_nonneg _
  unfold levelOf
  split
  · have := mul_nonneg cfg.rateLimit_pos.le later
    linarith
  · rename_i b held
    apply TokenBucket.level_later cfg.rateLimit_pos.le _ later
    rw [← secs_sub h]
    have := Time.le_def.mp h
    have ns : b.l.elapsed t' ≤ b.l.elapsed t + (t'.ns - t.ns) := by
      unfold RateLimiter.elapsed
      split
      · omega
      · omega
    have sum : secs (b.l.elapsed t + (t'.ns - t.ns)) = secs (b.l.elapsed t) + secs (t'.ns - t.ns) := by
      unfold secs
      push_cast
      ring
    exact sum ▸ secs_le ns

/-! ## The sweep -/

theorem buckets_of_sweep {l : Limiter} {now : Time} {key : Addr} {b : Bucket}
    (h : (l.sweep now).buckets key = some b) : l.buckets key = some b := by
  unfold sweep at h
  split at h
  · exact (Option.filter_eq_some_iff.mp h).1
  · exact h

theorem Kept.sweep {l : Limiter} {clock : Time} (kept : l.Kept clock) (now : Time) :
    (l.sweep now).Kept clock :=
  fun key b held => kept key b (buckets_of_sweep held)

/-- What is dropped was full again, if the time is long enough for that. -/
theorem levelOf_sweep (refilled : Refilled cfg) {l : Limiter} {clock : Time}
    (kept : l.Kept clock) (key : Addr) (now : Time) : (l.sweep now).levelOf cfg key now = l.levelOf cfg key now := by
  unfold sweep
  split
  · simp only [levelOf]
    cases held : l.buckets key with
    | none => rfl
    | some b =>
      by_cases idle : now.sub b.used > 10 * minute
      · obtain ⟨tokens, drawn, -⟩ := kept key b held
        have long : 10 * minute + 1 ≤ b.l.elapsed now := by
          simp only [Time.sub, minute, seconds] at idle
          unfold RateLimiter.elapsed
          split
          · simp [minute, seconds]
          · rename_i last drawnAt
            have := Time.le_def.mp (drawn last drawnAt)
            simp only [minute, seconds]
            omega
        have full : b.l.advance cfg.rateLimit cfg.rateBurst now = cfg.rateBurst := by
          apply TokenBucket.level_full tokens
          refine le_trans refilled ?_
          exact mul_le_mul_of_nonneg_left (secs_le long) cfg.rateLimit_pos.le
        rw [Option.filter_some, if_neg (by simpa using idle)]
        exact full.symm
      · rw [Option.filter_some, if_pos (by simpa using idle)]
  · rfl

/-! ## One call -/

/-- The bucket a call draws from, after the sweep. -/
def bucketOf (cfg : RateConfig) (l : Limiter) (key : Addr) (now : Time) : Bucket :=
  (l.buckets key).getD ⟨.new cfg.rateBurst, now⟩

theorem advance_bucketOf (l : Limiter) (key : Addr) (now : Time) :
    (bucketOf cfg l key now).l.advance cfg.rateLimit cfg.rateBurst now = l.levelOf cfg key now := by
  unfold bucketOf levelOf
  cases l.buckets key with
  | none =>
    refine min_eq_left ?_
    have := mul_nonneg cfg.rateLimit_pos.le
      (secs_nonneg ((RateLimiter.new cfg.rateBurst).elapsed now))
    simp only [Option.getD_none, RateLimiter.new] at *
    linarith
  | some b => rfl

theorem allowN_fst (lim : RateLimiter) (now : Time) :
    (lim.allowN cfg.rateLimit cfg.rateBurst now).1 =
      decide (1 ≤ lim.advance cfg.rateLimit cfg.rateBurst now) := by
  have burst : 1 ≤ cfg.rateBurst := cfg.rateBurst_pos
  unfold RateLimiter.allowN
  by_cases enough : 1 ≤ lim.advance cfg.rateLimit cfg.rateBurst now
  · simp [enough, burst]
  · simp [enough]

/-- What one call costs a client. -/
def cost (key : Addr) (call : Call) (ok : Bool) : ℚ :=
  if ok = true ∧ clientKey call.ip = key then 1 else 0

theorem advance_now (tokens : ℚ) (now : Time) (h : tokens ≤ cfg.rateBurst) :
    (RateLimiter.mk tokens (some now)).advance cfg.rateLimit cfg.rateBurst now = tokens := by
  simp [RateLimiter.advance, RateLimiter.elapsed, TokenBucket.level, secs, h]

theorem allowN_level (lim : RateLimiter) (now : Time) :
    (lim.allowN cfg.rateLimit cfg.rateBurst now).2.advance cfg.rateLimit cfg.rateBurst now =
      lim.advance cfg.rateLimit cfg.rateBurst now -
        if (lim.allowN cfg.rateLimit cfg.rateBurst now).1 then 1 else 0 := by
  have most : lim.advance cfg.rateLimit cfg.rateBurst now ≤ cfg.rateBurst :=
    TokenBucket.level_le_burst _ _
  unfold RateLimiter.allowN
  dsimp only
  split
  · rw [advance_now _ _ (by linarith)]
    simp
  · simp

theorem allow_eq (l : Limiter) (ip : Addr) (now : Time) :
    l.allow cfg ip now =
      (((bucketOf cfg (l.sweep now) (clientKey ip) now).l.allowN cfg.rateLimit cfg.rateBurst now).1,
        { l.sweep now with
          buckets := Function.update (l.sweep now).buckets (clientKey ip) (some
            ⟨((bucketOf cfg (l.sweep now) (clientKey ip) now).l.allowN
              cfg.rateLimit cfg.rateBurst now).2, now⟩) }) := rfl

/-- A call is allowed when its client has a token. -/
theorem allow_fst (l : Limiter) (ip : Addr) (now : Time) :
    (l.allow cfg ip now).1 = decide (1 ≤ (l.sweep now).levelOf cfg (clientKey ip) now) := by
  rw [← advance_bucketOf, ← allowN_fst, allow_eq]

/-- A call takes its token from its own client's bucket and leaves the others as the sweep did. -/
theorem levelOf_allow (cfg : RateConfig) (l : Limiter) (call : Call) (key : Addr) :
    (l.allow cfg call.ip call.now).2.levelOf cfg key call.now =
      (l.sweep call.now).levelOf cfg key call.now -
        cost key call (l.allow cfg call.ip call.now).1 := by
  rw [allow_eq]
  by_cases own : clientKey call.ip = key
  · subst own
    rw [← advance_bucketOf (l.sweep call.now), cost]
    simp only [levelOf, Function.update_self, allowN_level, and_true]
  · simp [levelOf, cost, own, Function.update_of_ne (Ne.symm own)]

theorem Bucket.Kept.allowN {b : Bucket} {clock now : Time} (kept : Bucket.Kept b clock)
    (later : clock ≤ now) :
    Bucket.Kept ⟨(b.l.allowN cfg.rateLimit cfg.rateBurst now).2, now⟩ now := by
  unfold RateLimiter.allowN
  dsimp only
  split
  · rename_i enough
    refine ⟨enough.2, ?_, Time.le_refl now⟩
    rintro last ⟨⟩
    exact Time.le_refl now
  · refine ⟨kept.tokens, fun last drawn => ?_, Time.le_refl now⟩
    exact Time.le_trans (kept.drawn last drawn) (Time.le_trans kept.used later)

theorem bucketOf_kept {l : Limiter} {now : Time} (kept : l.Kept now) (key : Addr) :
    Bucket.Kept (bucketOf cfg l key now) now := by
  unfold bucketOf
  cases held : l.buckets key with
  | none =>
    refine ⟨Nat.cast_nonneg _, ?_, Time.le_refl now⟩
    rintro last ⟨⟩
  | some b => exact kept key b held

theorem Kept.later {l : Limiter} {clock now : Time} (kept : l.Kept clock) (h : clock ≤ now) :
    l.Kept now :=
  fun key b held => ⟨(kept key b held).tokens, (kept key b held).drawn,
    Time.le_trans (kept key b held).used h⟩

theorem Kept.allow {l : Limiter} {clock now : Time} (kept : l.Kept clock) (cfg : RateConfig)
    (later : clock ≤ now) (ip : Addr) : (l.allow cfg ip now).2.Kept now := by
  have swept := (kept.later later).sweep now
  rw [allow_eq]
  intro key b held
  by_cases own : key = clientKey ip
  · subst own
    simp only [Function.update_self, Option.some.injEq] at held
    subst held
    exact (bucketOf_kept swept _).allowN (Time.le_refl now)
  · simp only [Function.update_of_ne own] at held
    exact swept key b held

/-! ## Runs -/

/-- The calls as one client's bucket sees them. -/
def eventsOf (key : Addr) (answers : List (Call × Bool)) : List (TokenBucket.Event ℚ) :=
  answers.map fun (call, ok) => ⟨call.now.secs, ok && clientKey call.ip == key⟩

theorem takenIn_eventsOf (key : Addr) (start stop : ℚ) (answers : List (Call × Bool)) :
    TokenBucket.takenIn start stop (eventsOf key answers) = allowedIn key start stop answers := by
  simp only [TokenBucket.takenIn, eventsOf, allowedIn, List.countP_map]
  rfl

theorem cost_le (cfg : RateConfig) {l : Limiter} {clock : Time} (kept : l.Kept clock) (key : Addr) (call : Call) :
    cost key call (l.allow cfg call.ip call.now).1 ≤
      (l.sweep call.now).levelOf cfg key call.now := by
  unfold cost
  split
  · rename_i charged
    obtain ⟨allowed, own⟩ := charged
    rw [allow_fst, decide_eq_true_eq, own] at allowed
    exact allowed
  · exact levelOf_nonneg (kept.sweep _) key _

/-- One client's calls are metered by a bucket, whoever calls in between. -/
theorem serve_metered (refilled : Refilled cfg) (key : Addr) {l : Limiter} {clock : Time}
    (kept : l.Kept clock) {calls : List Call} (chronological : Chronological calls)
    (later : ∀ call ∈ calls, clock ≤ call.now) :
    TokenBucket.Metered cfg.rateLimit cfg.rateBurst clock.secs (l.levelOf cfg key clock)
      (eventsOf key (serve cfg l calls)) := by
  induction calls generalizing l clock with
  | nil => exact .nil
  | cons call calls ih =>
    have next := later call List.mem_cons_self
    obtain ⟨after, chronological⟩ := List.pairwise_cons.mp chronological
    have drawn := levelOf_allow cfg l call key
    have enough := cost_le cfg kept key call
    rw [levelOf_sweep refilled kept] at drawn enough
    have rest := ih (kept.allow cfg next call.ip) chronological after
    rw [drawn] at rest
    have charged : cost key call (l.allow cfg call.ip call.now).1 =
        TokenBucket.Event.cost
          ⟨call.now.secs, (l.allow cfg call.ip call.now).1 && clientKey call.ip == key⟩ := by
      simp [cost, TokenBucket.Event.cost]
    rw [charged] at rest enough
    exact .cons (secs_mono next) (levelOf_later l key next) (levelOf_le l key _) enough rest

/-- The bound, where a bucket is full again before it may be dropped. -/
theorem allowedIn_le (refilled : Refilled cfg) {calls : List Call}
    (chronological : Chronological calls) (key : Addr) (start : ℚ) {length : ℚ}
    (positive : 0 ≤ length) :
    (allowedIn key start (start + length) (serve cfg new calls) : ℚ) ≤
      cfg.rateBurst + cfg.rateLimit * length := by
  have origin : ∀ call ∈ calls, (⟨0, by decide⟩ : Time) ≤ call.now :=
    fun call _ => Nat.zero_le call.now.ns
  have metered := serve_metered refilled key (new_kept ⟨0, by decide⟩) chronological origin
  rw [← takenIn_eventsOf]
  exact metered.takenIn_interval cfg.rateLimit_pos.le (Nat.cast_nonneg _) start positive

/-! ## What dropping a bucket gives away -/

/-- The limiter after the calls. -/
def after (cfg : RateConfig) (l : Limiter) (calls : List Call) : Limiter :=
  calls.foldl (fun l call => (l.allow cfg call.ip call.now).2) l

theorem serve_append (l : Limiter) (calls calls' : List Call) :
    serve cfg l (calls ++ calls') = serve cfg l calls ++ serve cfg (after cfg l calls) calls' := by
  induction calls generalizing l with
  | nil => rfl
  | cons call calls ih => simp only [List.cons_append, serve, ih, after, List.foldl_cons]

/-- A second sweep at one time does nothing. -/
theorem sweep_again {l l' : Limiter} {now : Time} (h : l'.lastSweep = (l.sweep now).lastSweep) :
    l'.sweep now = l' := by
  have : l'.lastSweep.all (fun last => now.sub last > minute) = false := by
    rw [h]
    unfold sweep
    split
    · simp [Time.sub]
    · rename_i no
      simpa using no
  rw [sweep, if_neg (by simpa using this)]

theorem lastSweep_allow (l : Limiter) (ip : Addr) (now : Time) :
    (l.allow cfg ip now).2.lastSweep = (l.sweep now).lastSweep := rfl

theorem sweep_allow (l : Limiter) (ip : Addr) (now : Time) :
    (l.allow cfg ip now).2.sweep now = (l.allow cfg ip now).2 := sweep_again (lastSweep_allow l ip now)

/-- As many calls at one time are allowed as there are tokens. -/
theorem serve_replicate (cfg : RateConfig) (call : Call) {n : Nat} {l : Limiter}
    (enough : n ≤ (l.sweep call.now).levelOf cfg (clientKey call.ip) call.now) :
    serve cfg l (List.replicate n call) = List.replicate n (call, true) := by
  induction n generalizing l with
  | zero => rfl
  | succ n ih =>
    push_cast at enough
    have nonneg : (0 : ℚ) ≤ n := Nat.cast_nonneg n
    have allowed : (l.allow cfg call.ip call.now).1 = true := by
      rw [allow_fst, decide_eq_true_eq]
      linarith
    have left := levelOf_allow cfg l call (clientKey call.ip)
    rw [cost, if_pos ⟨allowed, rfl⟩] at left
    have rest := @ih (l.allow cfg call.ip call.now).2 (by rw [sweep_allow, left]; linarith)
    simp only [List.replicate_succ, serve, allowed, rest]

theorem lastSweep_after (cfg : RateConfig) (call : Call) (n : Nat) (l : Limiter) :
    (after cfg l (List.replicate (n + 1) call)).lastSweep = (l.sweep call.now).lastSweep := by
  induction n generalizing l with
  | zero => rfl
  | succ n ih =>
    have rest := ih (l.allow cfg call.ip call.now).2
    rw [sweep_allow, lastSweep_allow] at rest
    exact rest

theorem used_after (cfg : RateConfig) (call : Call) (n : Nat) (l : Limiter) :
    ∃ b, (after cfg l (List.replicate (n + 1) call)).buckets (clientKey call.ip) = some b ∧
      b.used = call.now := by
  rw [List.replicate_succ', after, List.foldl_append, List.foldl_cons, List.foldl_nil, allow_eq]
  exact ⟨_, Function.update_self .., rfl⟩

/-- The last moment of the run in `twice`: the first at which a bucket may be dropped. -/
def dropTime : Time := ⟨10 * minute + 1, by decide⟩

def firstCall (ip : Addr) : Call := ⟨ip, ⟨0, by decide⟩⟩
def laterCall (ip : Addr) : Call := ⟨ip, dropTime⟩

/-- A client empties its bucket, waits until it is dropped, and empties the next one. -/
def twice (cfg : RateConfig) (ip : Addr) : List Call :=
  List.replicate cfg.rateBurst (firstCall ip) ++ List.replicate cfg.rateBurst (laterCall ip)

theorem twice_chronological (cfg : RateConfig) (ip : Addr) : Chronological (twice cfg ip) := by
  refine List.pairwise_append.mpr ⟨?_, ?_, ?_⟩
  · exact List.pairwise_replicate.mpr (.inr (Time.le_refl _))
  · exact List.pairwise_replicate.mpr (.inr (Time.le_refl _))
  · intro a ha b hb
    rw [List.eq_of_mem_replicate ha, List.eq_of_mem_replicate hb]
    exact Nat.zero_le _

/-- After its first calls the client's bucket is dropped by the time of the others. -/
theorem dropped_after (cfg : RateConfig) (ip : Addr) :
    ((after cfg new (List.replicate cfg.rateBurst (firstCall ip))).sweep dropTime).buckets
      (clientKey ip) = none := by
  obtain ⟨n, burst⟩ : ∃ n, cfg.rateBurst = n + 1 :=
    ⟨cfg.rateBurst - 1, by have := cfg.rateBurst_pos; omega⟩
  have swept := lastSweep_after cfg (firstCall ip) n new
  obtain ⟨b, held, used⟩ := used_after cfg (firstCall ip) n new
  rw [← burst] at swept held
  have first : (new.sweep (firstCall ip).now).lastSweep = some ⟨0, by decide⟩ := rfl
  have held : (after cfg new (List.replicate cfg.rateBurst (firstCall ip))).buckets (clientKey ip) =
      some b := held
  have idle : dropTime.sub b.used > 10 * minute := by
    rw [used]
    show dropTime.sub ⟨0, by decide⟩ > 10 * minute
    decide
  rw [sweep, swept, first, if_pos (by decide)]
  simp only [held, Option.filter_some]
  rw [if_neg (by simpa using idle)]

theorem serve_twice (cfg : RateConfig) (ip : Addr) :
    serve cfg new (twice cfg ip) = (twice cfg ip).map fun call => (call, true) := by
  have first : serve cfg new (List.replicate cfg.rateBurst (firstCall ip)) =
      List.replicate cfg.rateBurst (firstCall ip, true) := serve_replicate cfg _ (le_of_eq rfl)
  have second : serve cfg (after cfg new (List.replicate cfg.rateBurst (firstCall ip)))
      (List.replicate cfg.rateBurst (laterCall ip)) =
        List.replicate cfg.rateBurst (laterCall ip, true) := by
    apply serve_replicate
    rw [levelOf, show (laterCall ip).now = dropTime from rfl, show (laterCall ip).ip = ip from rfl,
      dropped_after]
  rw [twice, serve_append, first, second, List.map_append, List.map_replicate, List.map_replicate]

/-- Every call of `twice` is allowed, twice the burst in all. -/
theorem allowedIn_twice (cfg : RateConfig) (ip : Addr) :
    allowedIn (clientKey ip) 0 (0 + dropTime.secs) (serve cfg new (twice cfg ip)) =
      2 * cfg.rateBurst := by
  have nonneg : 0 ≤ dropTime.secs := secs_nonneg _
  rw [serve_twice, allowedIn, List.countP_map, twice, List.countP_append]
  rw [List.countP_replicate, List.countP_replicate]
  have first : (firstCall ip).now.secs = 0 := by simp [firstCall, Time.secs]
  have own : (firstCall ip).ip = ip := rfl
  rw [if_pos (by simp [first, own, nonneg]), if_pos (by simp [laterCall, nonneg])]
  omega

end Limiter

/-- The bound holds for every client in every run exactly when a bucket is full again in the time
after which it may be dropped. -/
theorem rate_limited (cfg : RateConfig) :
    (∀ calls, Limiter.Chronological calls → ∀ key start length, 0 ≤ length →
      (Limiter.allowedIn key start (start + length) (Limiter.serve cfg .new calls) : ℚ) ≤
        cfg.rateBurst + cfg.rateLimit * length) ↔ Limiter.Refilled cfg := by
  constructor
  · intro bounded
    have twice := bounded _ (Limiter.twice_chronological cfg (.v4 0)) (clientKey (.v4 0)) 0
      Limiter.dropTime.secs (Limiter.secs_nonneg _)
    rw [Limiter.allowedIn_twice] at twice
    push_cast at twice
    rw [show Limiter.dropTime.secs = secs (10 * Limiter.minute + 1) from rfl] at twice
    unfold Limiter.Refilled
    linarith
  · intro refilled calls chronological key start length positive
    exact Limiter.allowedIn_le refilled chronological key start positive

namespace Sample

/-- One request in 100 seconds with a burst of 30. -/
def slow : RateConfig := ⟨1 / 100, 30, by norm_num, by norm_num⟩

/-- 60 requests of one client are let through in ten minutes and a nanosecond; the bound is 36. -/
theorem twice_slow :
    Limiter.Chronological (Limiter.twice slow (.v4 0)) ∧
      ¬(Limiter.allowedIn (.v4 0) 0 (0 + Limiter.dropTime.secs)
          (Limiter.serve slow .new (Limiter.twice slow (.v4 0))) : ℚ) ≤
        slow.rateBurst + slow.rateLimit * Limiter.dropTime.secs := by
  refine ⟨Limiter.twice_chronological _ _, ?_⟩
  have all := Limiter.allowedIn_twice slow (.v4 0)
  rw [show clientKey (.v4 0) = .v4 0 from rfl] at all
  rw [all]
  norm_num [slow, Limiter.dropTime, Time.secs, Limiter.minute, seconds]

end Sample

end Shyake.Go
