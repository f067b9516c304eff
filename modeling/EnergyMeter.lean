import EnergyMeter.Lib.Numerals
import EnergyMeter.Lib.Partial
import EnergyMeter.Lib.Ring
import EnergyMeter.Lib.Trapezoid
import EnergyMeter.Lib.Memory
import EnergyMeter.Lib.Run
import EnergyMeter.Lib.Table
import EnergyMeter.Lib.Fields
import EnergyMeter.Lib.Binary32
import EnergyMeter.Lib.RunningSum
import EnergyMeter.Lib.Resonator
import EnergyMeter.Lib.Harmonics
import EnergyMeter.Lib.Scan
import EnergyMeter.Lib.Pru
import EnergyMeter.Lib.PruIo
import EnergyMeter.Lib.Serial
import EnergyMeter.Lib.Intc
import EnergyMeter.Cpt.Maf
import EnergyMeter.Cpt.Drift
import EnergyMeter.Cpt.Model
import EnergyMeter.Cpt.Loops
import EnergyMeter.Cpt.Signals
import EnergyMeter.Cpt.State
import EnergyMeter.Cpt.Refinement
import EnergyMeter.Cpt.Initialised
import EnergyMeter.Cpt.Config
import EnergyMeter.Cpt.Safety
import EnergyMeter.Cpt.Factors
import EnergyMeter.Cpt.Memory
import EnergyMeter.Cpt.Conservation
import EnergyMeter.Cpt.Symmetry
import EnergyMeter.Cpt.Independence
import EnergyMeter.Cpt.Outputs
import EnergyMeter.Cpt.Rms
import EnergyMeter.Cpt.Bounds
import EnergyMeter.Cpt.Filters
import EnergyMeter.Cpt.UnbiasedIntegral
import EnergyMeter.Cpt.Monotone
import EnergyMeter.Cpt.SetUp
import EnergyMeter.Meter.Message
import EnergyMeter.Meter.Model
import EnergyMeter.Meter.Raw
import EnergyMeter.Meter.Means
import EnergyMeter.Meter.Log
import EnergyMeter.Meter.Events
import EnergyMeter.Meter.Goertzel
import EnergyMeter.Meter.Harmonics
import EnergyMeter.Meter.Waveform
import EnergyMeter.Meter.Signature
import EnergyMeter.Daq.Model
import EnergyMeter.Daq.Invariant
import EnergyMeter.Daq.Progress
import EnergyMeter.Daq.Delivery
import EnergyMeter.Daq.Packing
import EnergyMeter.Daq.Unpacking
import EnergyMeter.Daq.Mem
import EnergyMeter.Daq.Startup
import EnergyMeter.Daq.Converter
import EnergyMeter.Daq.Transfer
import EnergyMeter.Daq.Configure
import EnergyMeter.Daq.Readout
import EnergyMeter.Daq.System
import EnergyMeter.Daq.Driver
import EnergyMeter.Daq.Routes
import EnergyMeter.Daq.Setup
import EnergyMeter.Daq.Interrupts
import EnergyMeter.Meter.Scale
import EnergyMeter.Meter.Fits
import EnergyMeter.Datalogger.Model
import EnergyMeter.Datalogger.Grammar
import EnergyMeter.Datalogger.Framing
import EnergyMeter.Datalogger.Records
import EnergyMeter.Datalogger.WireFormat
import EnergyMeter.Datalogger.Server
import EnergyMeter.Datalogger.Survival
import EnergyMeter.Datalogger.ConvertRaw
import EnergyMeter.Datalogger.Site
