import Devos.Security.TableRemove

/-! What `remove_func` keeps of the records in the table. -/

namespace Devos.Security

open Loops LinearProbing Scheme

section Records

variable {t t' : HashTable} {n : Word} {h : HKey} {e : EDir} {r : ℤ}

end Records

end Devos.Security
