import Mathlib.Logic.Basic

/-!
# Error codes

The codes of `libs/error.h` that the modelled routines return, negated.
-/

namespace UcoreSmp

def E_INVAL : Int := 3
def E_NO_MEM : Int := 4
def E_INVAL_ELF : Int := 8
def E_KILLED : Int := 9
def E_BUSY : Int := 15
def E_NOENT : Int := 16
def E_ISDIR : Int := 17
def E_MAX_OPEN : Int := 22
def E_EXISTS : Int := 23

namespace Plus

/-! The codes of `kern-ucore/libs/error.h`. -/

def E_NOENT : Int := 2
def E_BADF : Int := 9
def E_NO_MEM : Int := 12
def E_INVAL : Int := 22
def E_MFILE : Int := 24

end Plus

end UcoreSmp
