import Stdplus.Numeric.Integral

namespace Stdplus.Uring

open Stdplus.Numeric

/-- `std::chrono::nanoseconds`, a count in 64 bits. -/
structure Nanoseconds where
  count : Int
  representable : IntType.int64.Contains count

def nano : Int := 1000000000

/-- `std::chrono::duration_cast<std::chrono::seconds>`, which rounds towards zero. -/
def durationCast (t : Nanoseconds) : Int := t.count.tdiv nano

/-- `std::chrono::floor<std::chrono::seconds>`: the comparison brings the seconds back to
nanoseconds, in 64 bits. -/
def floorSeconds (t : Nanoseconds) : Int :=
  if t.count < IntType.int64.cast (durationCast t * nano) then IntType.int64.cast (durationCast t - 1)
  else durationCast t

structure KernelTimespec where
  tv_sec : Int
  tv_nsec : Int
deriving DecidableEq

/-- The remainder rounds towards zero. -/
def chronoToKTS (t : Nanoseconds) : KernelTimespec where
  tv_sec := floorSeconds t
  tv_nsec := t.count.tmod nano

/-- What `CHECK_RET` throws. -/
structure SystemError where
  code : Int
  what : String

/-- `IoUring::wait(timeout)`, with the timeouts that the kernel was asked for; `kernel` is
what it returns. -/
def wait (kernel : KernelTimespec → Int) (timeout : Nanoseconds) (asked : List KernelTimespec) :
    Except SystemError Unit × List KernelTimespec :=
  let kts := chronoToKTS timeout
  let ret := kernel kts
  (if ret < 0 then .error { code := -ret, what := "io_uring_wait_cqe_timeout" } else .ok (), asked ++ [kts])

/-- A normalised pair of seconds and nanoseconds stands for the duration. -/
structure KernelTimespec.Denotes (ts : KernelTimespec) (t : Nanoseconds) : Prop where
  nonnegative : 0 ≤ ts.tv_nsec
  normalised : ts.tv_nsec < nano
  exact : ts.tv_sec * nano + ts.tv_nsec = t.count

/-- Rounding towards zero is rounding down. -/
def Nanoseconds.Even (t : Nanoseconds) : Prop := 0 ≤ t.count ∨ nano ∣ t.count

instance (t : Nanoseconds) : Decidable t.Even := inferInstanceAs (Decidable (_ ∨ _))

theorem durationCast_eq (t : Nanoseconds) : durationCast t = t.count / nano + if t.Even then 0 else 1 :=
  Int.tdiv_eq_ediv

theorem int64_contains_iff (v : Int) :
    IntType.int64.Contains v ↔ -9223372036854775808 ≤ v ∧ v ≤ 9223372036854775807 := Iff.rfl

theorem floorSeconds_eq (t : Nanoseconds) : floorSeconds t = t.count / nano := by
  have ⟨least, greatest⟩ := (int64_contains_iff _).mp t.representable
  rw [floorSeconds, durationCast_eq]
  by_cases even : t.Even
  · have back : IntType.int64.Contains (t.count / nano * nano) := by
      rw [int64_contains_iff]
      unfold Nanoseconds.Even nano at *
      omega
    rw [if_pos even, Int.add_zero, IntType.cast_of_contains back, if_neg]
    unfold nano
    omega
  · have back : IntType.int64.Contains ((t.count / nano + 1) * nano) := by
      rw [int64_contains_iff]
      unfold Nanoseconds.Even nano at *
      omega
    have down : IntType.int64.Contains (t.count / nano) := by
      rw [int64_contains_iff]
      unfold nano
      omega
    rw [if_neg even, IntType.cast_of_contains back, if_pos, Int.add_sub_cancel, IntType.cast_of_contains down]
    unfold nano
    omega

/-- The nanoseconds are those of the seconds rounded towards zero: below zero they are one
second short. -/
theorem tv_nsec_eq (t : Nanoseconds) :
    (chronoToKTS t).tv_nsec = t.count % nano - if t.Even then 0 else nano := by
  have remainder := Int.tmod_eq_emod (a := t.count) (b := nano)
  rw [chronoToKTS, remainder]
  change _ - ((if t.Even then 0 else nano.natAbs : Nat) : Int) = _
  split <;> rfl

theorem chronoToKTS_denotes_iff (t : Nanoseconds) : (chronoToKTS t).Denotes t ↔ t.Even := by
  have seconds : (chronoToKTS t).tv_sec = t.count / nano := floorSeconds_eq t
  have nanoseconds := tv_nsec_eq t
  constructor
  · intro denotes
    by_contra odd
    have nonnegative := denotes.nonnegative
    rw [nanoseconds, if_neg odd] at nonnegative
    unfold nano at nonnegative
    omega
  · intro even
    rw [if_pos even, Int.sub_zero] at nanoseconds
    refine ⟨?_, ?_, ?_⟩
    · rw [nanoseconds]
      exact Int.emod_nonneg _ (by decide)
    · rw [nanoseconds]
      exact Int.emod_lt_of_pos _ (by decide)
    · rw [seconds, nanoseconds]
      exact Int.ediv_mul_add_emod ..

/-- The pair stands for the duration, and the kernel is asked to wait that long, exactly for
the durations that are not negative and the whole seconds. -/
theorem wait_denotes_iff (t : Nanoseconds) :
    ((chronoToKTS t).Denotes t ↔ 0 ≤ t.count ∨ nano ∣ t.count) ∧
      ∀ (kernel : KernelTimespec → Int) (asked : List KernelTimespec),
        (∃ ts, (wait kernel t asked).2 = asked ++ [ts] ∧ ts.Denotes t) ↔ 0 ≤ t.count ∨ nano ∣ t.count := by
  refine ⟨chronoToKTS_denotes_iff t, fun kernel asked => ?_⟩
  constructor
  · rintro ⟨ts, handed, denotes⟩
    obtain rfl : chronoToKTS t = ts := by simpa [wait] using handed
    exact (chronoToKTS_denotes_iff t).mp denotes
  · intro even
    exact ⟨chronoToKTS t, rfl, (chronoToKTS_denotes_iff t).mpr even⟩

/-- One nanosecond ago: the pair is a second short, and no pair that the kernel takes. -/
theorem chronoToKTS_ago : chronoToKTS ⟨-1, by decide⟩ = { tv_sec := -1, tv_nsec := -1 } ∧
    ¬ (chronoToKTS ⟨-1, by decide⟩).Denotes ⟨-1, by decide⟩ := by
  refine ⟨by decide, fun denotes => ?_⟩
  exact absurd denotes.nonnegative (by decide)

end Stdplus.Uring
