/-
# The timer (`timer.c`)

The timer is two registers: `stimecmp`, the time at which the interrupt becomes pending, and the
bit `STIE` of `sie`, which lets it through.  All the arithmetic is on 64-bit words and wraps.
-/
import RvKernel.Lib.Word

namespace RvKernel.Timer

/-- `TIMER_FREQ`, in ticks a second. -/
def TIMER_FREQ : U64 := 10000000

/-- `CSR_SIE_STIE`. -/
def SIE_STIE : U64 := 1 <<< 5

/-- `timer_read()`, where the `time` CSR reads `time`. -/
def timerRead (time : U64) : U64 := time / TIMER_FREQ

/-- What `timer_set_alarm(secs)` writes to `stimecmp`, where the `time` CSR reads `time`. -/
def timerSetAlarm (time secs : U64) : U64 := time + secs * TIMER_FREQ

/-- `timer_irq_enable()`. -/
def timerIrqEnable (sie : U64) : U64 := sie ||| SIE_STIE

/-- `timer_irq_disable()`. -/
def timerIrqDisable (sie : U64) : U64 := sie &&& ~~~SIE_STIE

theorem toNat_freq : TIMER_FREQ.toNat = 10000000 := rfl

/-- The uptime is small: at most thirteen decimal digits. -/
theorem toNat_timerRead (time : U64) : (timerRead time).toNat < 10 ^ 13 := by
  have h := time.isLt
  rw [timerRead, BitVec.toNat_udiv, toNat_freq]
  omega

theorem toNat_timerSetAlarm (time secs : U64) :
    (timerSetAlarm time secs).toNat = (time.toNat + secs.toNat * 10000000) % 2 ^ 64 := by
  rw [timerSetAlarm, BitVec.toNat_add, BitVec.toNat_mul, toNat_freq]
  omega

end RvKernel.Timer
