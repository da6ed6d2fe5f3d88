import Caos.Irq.Sources
import Caos.Mp.Search

/-!
From the tables of the firmware to the interrupts of the kernel: `mp_spec_init` finds and reads
the MP table, and `init_bsp_APIC` compares what it has registered with the processor and its
local APIC.
-/

namespace Caos.Irq

open Lib

variable {Handler : Type*}

section Verify

variable {mp : MpState} {m : MpcConfigProcessor}

end Verify

end Caos.Irq
